import Triage.CommandLine.Grammar
import Triage.Release
import Triage.Settings

set_option autoImplicit false

namespace Triage
namespace CommandLine

structure CheckArgs where
  input : Option Text
  inputFormat : Option InputFormat
  stem : Option Text
  noLogging : Bool
  alwaysSucceed : Bool
  terse : Bool
  detailed : Bool
  json : Bool
  messages : Option Text
  noDiscover : Bool
  command : List Text
  deriving DecidableEq, Repr

inductive RulesFormat where
  | terminal | json
  deriving DecidableEq, Repr

structure RulesArgs where
  files : List Text
  format : RulesFormat
  stem : Option Text
  deriving DecidableEq, Repr

structure InitArgs where
  force : Bool
  deriving DecidableEq, Repr

inductive Command where
  | check (args : CheckArgs)
  | rules (args : RulesArgs)
  | init (args : InitArgs)
  deriving DecidableEq, Repr

structure Invocation where
  verbosity : Nat
  config : Option Text
  directory : Option Text
  command : Command
  deriving DecidableEq, Repr

def Invocation.forcesSuccess (i : Invocation) : Bool :=
  match i.command with
  | .check args => args.alwaysSucceed
  | _ => false

namespace CheckArgs

/-- A summary flag wins over the settings. -/
def summaryMode (a : CheckArgs) (s : Settings) : SummaryMode :=
  if a.json then .json
  else if a.detailed then .detailed
  else if a.terse then .terse
  else s.output.summary

/-- Diagnostics are printed unless something says no; a JSON summary stands alone. -/
def logging (a : CheckArgs) (s : Settings) : Bool :=
  !a.noLogging && a.summaryMode s ≠ .json && s.output.logging

def succeedsAlways (a : CheckArgs) (s : Settings) : Bool :=
  a.alwaysSucceed || s.output.alwaysSucceed

def stemIn (a : CheckArgs) (s : Settings) : Text := a.stem.getD s.stem

def messagesIn (a : CheckArgs) (s : Settings) : Option Text := a.messages <|> s.compiler.messages

def discovers (a : CheckArgs) (s : Settings) : Bool := !a.noDiscover && s.sources.discover

end CheckArgs

def isPath (t : Text) : Bool := t ≠ []

def flag (name : String) (short : Option Char := none) : OptionSpec := ⟨name.toList, short, .flag⟩

def value (name : String) (accepts : Text → Bool) (short : Option Char := none) : OptionSpec :=
  ⟨name.toList, short, .value accepts⟩

def commonOptions : List OptionSpec :=
  [⟨"verbose".toList, some 'v', .count⟩,
   value "config" isPath (some 'c'),
   value "directory" isPath (some 'C'),
   ⟨"help".toList, some 'h', .help⟩,
   ⟨"version".toList, some 'V', .version⟩]

def commandNames : List Text := ["check".toList, "rules".toList, "init".toList]

def rootGrammar : Grammar :=
  ⟨programName, commonOptions, .nowhere, commandNames ++ ["help".toList]⟩

def subcommandName (name : String) : Text := programName ++ '-' :: name.toList

def checkGrammar : Grammar :=
  ⟨subcommandName "check",
   commonOptions ++
    [value "input" isPath (some 'i'),
     value "input-format" (fun t => (InputFormat.ofWord? t).isSome),
     value "attr-prefix" (fun _ => true),
     flag "no-diagnostic-logging",
     flag "exit-code0",
     flag "summary",
     flag "detailed-summary",
     flag "json-summary",
     value "messages" isPath,
     flag "no-discover"],
   .behindDashes, []⟩

def RulesFormat.ofWord? (t : Text) : Option RulesFormat :=
  if t = "terminal".toList then some .terminal
  else if t = "json".toList then some .json
  else none

def rulesGrammar : Grammar :=
  ⟨subcommandName "rules",
   commonOptions ++
    [value "format" (fun t => (RulesFormat.ofWord? t).isSome) (some 'f'),
     value "attr-prefix" (fun _ => true)],
   .anywhere, []⟩

def initGrammar : Grammar :=
  ⟨subcommandName "init", commonOptions ++ [flag "force" (some 'f')], .nowhere, []⟩

def scanAll (g : Grammar) (args : List Text) : Except UsageError Scan := do
  (← g.scan .start args).1.resolve

def summaryOptions : List Text :=
  ["summary".toList, "detailed-summary".toList, "json-summary".toList]

def CheckArgs.ofScan (s : Scan) : Except UsageError CheckArgs :=
  if s.has "input".toList ∧ s.operands ≠ [] then .error .argumentConflict
  else if 1 < summaryOptions.countP (s.has ·) then .error .argumentConflict
  else .ok {
    input := s.value? "input".toList
    inputFormat := (s.value? "input-format".toList).bind InputFormat.ofWord?
    stem := s.value? "attr-prefix".toList
    noLogging := s.has "no-diagnostic-logging".toList
    alwaysSucceed := s.has "exit-code0".toList
    terse := s.has "summary".toList
    detailed := s.has "detailed-summary".toList
    json := s.has "json-summary".toList
    messages := s.value? "messages".toList
    noDiscover := s.has "no-discover".toList
    command := s.operands }

def RulesArgs.ofScan (s : Scan) : Except UsageError RulesArgs :=
  if s.operands = [] then .error .missingRequiredArgument
  else .ok {
    files := s.operands
    format := ((s.value? "format".toList).bind RulesFormat.ofWord?).getD .terminal
    stem := s.value? "attr-prefix".toList }

def InitArgs.ofScan (s : Scan) : Except UsageError InitArgs := .ok ⟨s.has "force".toList⟩

def scanCommand (name : Text) (args : List Text) : Except UsageError (Scan × Command) := do
  if name = "check".toList then
    let s ← scanAll checkGrammar args
    return (s, .check (← CheckArgs.ofScan s))
  else if name = "rules".toList then
    let s ← scanAll rulesGrammar args
    return (s, .rules (← RulesArgs.ofScan s))
  else
    let s ← scanAll initGrammar args
    return (s, .init (← InitArgs.ofScan s))

/-- Help is given on a command that exists; commands have none below them. -/
def helpOn : List Text → UsageError
  | [] => .help
  | [name] => if name ∈ rootGrammar.subcommands then .help else .invalidSubcommand
  | _ => .invalidSubcommand

/-- The count of an option, behind the command if it stands there at all. -/
def countOver (root s : Scan) (name : Text) : Nat :=
  min 255 (if s.has name then s.count name else root.count name)

def valueOver (root s : Scan) (name : Text) : Option Text := s.value? name <|> root.value? name

/-- The invocation that arguments stand for, the name of the program left out. -/
def Invocation.parse (argv : List Text) : Except UsageError Invocation := do
  match ← rootGrammar.scan .start argv with
  | (root, none) =>
    let root ← root.resolve
    throw (if root.given = [] then .helpInstead else .missingSubcommand)
  | (root, some (name, args)) =>
    if name = "help".toList then throw (helpOn args)
    let (s, command) ← scanCommand name args
    let root ← root.resolve
    return {
      verbosity := countOver root s "verbose".toList
      config := valueOver root s "config".toList
      directory := valueOver root s "directory".toList
      command }

end CommandLine
end Triage
