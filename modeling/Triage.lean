import Triage.AttributeStore
import Triage.AttributeStore.Framing
import Triage.Catalog
import Triage.Catalog.Bundled
import Triage.Catalog.Table
import Triage.Command.Check
import Triage.Command.Init
import Triage.Command.Input
import Triage.Command.Rules
import Triage.CommandLine
import Triage.CommandLine.Grammar
import Triage.Diagnostic
import Triage.Diagnostic.Line
import Triage.Diagnostic.Record
import Triage.Diagnostic.Records
import Triage.Diagnostic.Transcript
import Triage.Failure
import Triage.Json
import Triage.Json.Quoted
import Triage.Json.Reader
import Triage.Json.Record
import Triage.Json.Writer
import Triage.Main
import Triage.Path
import Triage.Program
import Triage.Release
import Triage.Report.Diagnostics
import Triage.Report.Rules
import Triage.Report.Summary
import Triage.Rule
import Triage.Rule.Attribute
import Triage.Rule.Record
import Triage.Session
import Triage.Settings
import Triage.Settings.Document
import Triage.SortedMap
import Triage.Styled
import Triage.Summary
import Triage.Summary.Record
import Triage.Text
import Triage.Text.Class
import Triage.Text.Decimal
import Triage.Text.Hex
import Triage.Fixture.Octets
import Triage.Text.Utf8
import Triage.Toml
import Triage.Toml.Quoted
import Triage.Toml.Reader
import Triage.Toml.Record
import Triage.Toml.Scalar
import Triage.World
import Triage.World.Action
import Triage.Fixture.Cat
import Triage.Fixture.Programs
import Triage.Fixture.Shell.Arithmetic
import Triage.Fixture.Shell.Builtin
import Triage.Fixture.Shell.Condition
import Triage.Fixture.Shell.Evaluation
import Triage.Fixture.Shell.Expansion
import Triage.Fixture.Shell.Format
import Triage.Fixture.Shell.Grammar
import Triage.Fixture.Shell.Number
import Triage.Fixture.Shell.Pattern
import Triage.Fixture.Shell.Program
import Triage.Fixture.Shell.Redirection
import Triage.Fixture.Shell.Script
import Triage.Fixture.Shell.Source
import Triage.Fixture.Shell.State
import Triage.Fixture.Shell.Token
import Triage.Fixture.Store
import Triage.Proofs.Session.Account
import Triage.Proofs.Session.Run
import Triage.Proofs.Chain.Pruning
import Triage.Proofs.Path.Display
import Triage.Proofs.Path.Spelling
import Triage.Proofs.Path.Climb
import Triage.Proofs.Line.Grammar
import Triage.Proofs.Line.Reading
import Triage.Proofs.Transcript.RoundTrip
import Triage.Proofs.Transcript.Effect
import Triage.Proofs.Transcript.Retouch
import Triage.Proofs.Transcript.Skipped
import Triage.Proofs.Transcript.Concatenation
import Triage.Proofs.Chain.Frame
import Triage.Proofs.Session.Totals
import Triage.Proofs.Chain.Slice
import Triage.Proofs.Chain.Conservation
import Triage.Proofs.Chain.Locality
import Triage.Proofs.Chain.Arrival
import Triage.Proofs.Chain.Again
import Triage.Proofs.AttributeStore.Framing
import Triage.Proofs.Text.Utf8
import Triage.Proofs.Text.Words
import Triage.Proofs.Text.ByteOrder
import Triage.Proofs.World.Attempt
import Triage.Proofs.Rule.Attribute
import Triage.Proofs.AttributeStore.Query
import Triage.Proofs.AttributeStore.RoundTrip
import Triage.Proofs.AttributeStore.Truncation
import Triage.Proofs.Catalog.History
import Triage.Proofs.Catalog.Table
import Triage.Proofs.Json.Quoted
import Triage.Proofs.Json.Reader
import Triage.Proofs.Json.Record
import Triage.Proofs.Json.RoundTrip
import Triage.Proofs.Check.Course
import Triage.Proofs.Check.Discovery
import Triage.Proofs.Check.Document
import Triage.Proofs.Check.Messages
import Triage.Proofs.Report.Reportable
import Triage.Proofs.Report.Colour
import Triage.Proofs.CommandLine.Flags
import Triage.Proofs.Program.Outcome
import Triage.Proofs.Rule.Declaration
import Triage.Proofs.Diagnostic.Records
import Triage.Proofs.Settings.Document
import Triage.Proofs.Toml.Lines
import Triage.Proofs.Toml.Growth
import Triage.Proofs.Toml.Insertion
import Triage.Proofs.Settings.Defaults
import Triage.Proofs.Path.Containment
import Triage.Proofs.Report.Ranking
