import Triage.AttributeStore
import Triage.Command.Input
import Triage.CommandLine
import Triage.Report.Summary
import Triage.Session

set_option autoImplicit false

/-!
The check: diagnostics are read, sieved by the rules of their files and summed up; then what is to
be seen is printed. Nothing is printed before everything that can fail is done.
-/

namespace Triage

structure Printed where
  exit : Nat
  stdout : Text
  stderr : Text
  deriving DecidableEq, Repr

def loadTable (path : Text) : Attempt MessageTable := do
  let text ← Attempt.orFail (Action.getText path) fun e => .settings (.unreadable path e)
  match MessageTable.read text with
  | some t => return t
  | none => throw (.settings (.badTable path))

namespace Check
open CommandLine

structure Findings where
  kept : List Diagnostic
  summary : Summary
  /-- Files with diagnostics, and those discovered. -/
  known : SortedSet Text
  catalog : Catalog

def input (args : CheckArgs) (settings : Settings) : Input :=
  if args.input = none ∧ args.command = [] ∧ settings.compiler.command ≠ [] then
    .command settings.compiler.command
  else Input.choose args.input args.command

/-- The messages of the diagnostics, with those of a table behind them. -/
def catalog (ds : List Diagnostic) (table : Option MessageTable) : Catalog :=
  match table with
  | some t => (Catalog.ofDiagnostics ds).withTable t
  | none => Catalog.ofDiagnostics ds

/-- The project's source files, or none where they cannot be listed. -/
def discover (settings : Settings) (dir : Text) : Action (SortedSet Text) := do
  match ← ExceptT.run (AttributeStore.list ⟨dir⟩ settings.sources.patterns) with
  | .ok files => return files
  | .error _ => return .empty

def sift (rules : ProjectRules) (ds : List Diagnostic) : List Diagnostic × Summary :=
  let (kept, chain) := Chain.sieve [Session.start rules] ds
  (kept, (chain.getLast?.map Session.report).getD .empty)

def findings (args : CheckArgs) (settings : Settings) (dir : Text) (source : RuleSource) :
    Attempt Findings := do
  let format := args.inputFormat.getD settings.compiler.format
  let ds ← (input args settings).read format dir
  let table ← match args.messagesIn settings with
    | some path => some <$> loadTable (Text.under dir path)
    | none => pure none
  let withDiagnostics := SortedSet.ofList (ds.filterMap (·.file))
  let discovered ← if args.discovers settings then Attempt.ofAction (discover settings dir)
    else pure .empty
  let known := withDiagnostics.addAll discovered.keys
  let rules ← source.query known (args.stemIn settings)
  let (kept, summary) := sift rules ds
  return ⟨kept, summary, known, catalog ds table⟩

def notice (kept : List Diagnostic) : Styled :=
  Styled.inStyle (.hue .red)
    ("Skipped logging ".toList ++ Text.ofNat kept.length ++ " diagnostics.".toList) ++
    Styled.lit "\n"

def summaryText (mode : SummaryMode) (dir : Text) (colour : Bool) (f : Findings) : Text :=
  match mode with
  | .none => []
  | .terse => (Report.terse dir f.summary f.known).render colour ++ ['\n']
  | .detailed => (Report.detailed dir f.catalog f.summary f.known).render colour ++ ['\n']
  | .json => (Report.summaryJson f.summary f.known).pretty ++ ['\n']

/-- What is seen of the findings, and the exit code: 1 where diagnostics are left, unless the run
always succeeds. -/
def print (args : CheckArgs) (settings : Settings) (dir : Text) (colour : Bool) (f : Findings) :
    Printed :=
  let mode := args.summaryMode settings
  let summary := summaryText mode dir colour f
  let exit := if f.kept = [] ∨ args.succeedsAlways settings then 0 else 1
  if f.kept = [] then ⟨exit, summary, []⟩
  else if args.logging settings then
    ⟨exit, (Report.diagnostics dir f.kept).render colour ++ summary, []⟩
  else if mode = .json then ⟨exit, summary, (notice f.kept).render colour⟩
  else ⟨exit, (notice f.kept).render colour ++ summary, []⟩

def run (args : CheckArgs) (settings : Settings) (dir : Text) (colour : Bool)
    (source : RuleSource) : Attempt Printed := do
  return print args settings dir colour (← findings args settings dir source)

end Check
end Triage
