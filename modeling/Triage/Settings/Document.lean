import Triage.Settings
import Triage.Toml.Record

set_option autoImplicit false

namespace Triage.Settings
open Toml

/-! What a group that stands in the document has where it leaves a field out. A group that does not
stand there has the default of the group. -/

def Output.loggingDefault : Bool := true

def Output.summaryDefault : SummaryMode := .default

def Output.alwaysSucceedDefault : Bool := false

def Compiler.commandDefault : List Text := []

def Compiler.formatDefault : InputFormat := .default

def Compiler.messagesDefault : Option Text := none

def Sources.discoverDefault : Bool := true

def Sources.patternsDefault : List Text := defaultPatterns

def Output.ofToml : Decoder Output := fun v => do
  match ← slots ["diagnostic_logging".toList, "summary".toList, "exit_code_zero".toList] v with
  | [logging, summary, alwaysSucceed] =>
    return {
      logging := ← orElse flag loggingDefault logging
      summary := ← orElse (oneOf SummaryMode.ofWord?) summaryDefault summary
      alwaysSucceed := ← orElse flag alwaysSucceedDefault alwaysSucceed }
  | _ => none

def Compiler.ofToml : Decoder Compiler := fun v => do
  match ← slots ["command".toList, "format".toList, "messages".toList] v with
  | [command, format, messages] =>
    return {
      command := ← orElse texts commandDefault command
      format := ← orElse (oneOf InputFormat.ofWord?) formatDefault format
      messages := ← orElse (fun v => (text v).map some) messagesDefault messages }
  | _ => none

def Sources.ofToml : Decoder Sources := fun v => do
  match ← slots ["discover".toList, "patterns".toList] v with
  | [discover, patterns] =>
    return {
      discover := ← orElse flag discoverDefault discover
      patterns := ← orElse texts patternsDefault patterns }
  | _ => none

def ofToml : Decoder Settings := fun v => do
  match ← slots ["attr_prefix".toList, "output".toList, "compiler".toList, "sources".toList] v with
  | [stem, output, compiler, sources] =>
    return {
      stem := ← orElse text defaultStem stem
      output := ← orElse Output.ofToml .default output
      compiler := ← orElse Compiler.ofToml .default compiler
      sources := ← orElse Sources.ofToml .default sources }
  | _ => none

def read (t : Text) : Option Settings := (Toml.read t).bind ofToml

def line (key : String) (value : Text) : Text := key.toList ++ " = ".toList ++ value ++ ['\n']

def flagText (b : Bool) : Text := if b then "true".toList else "false".toList

def listText : List Text → Text
  | [] => "[]".toList
  | [t] => '[' :: quote t ++ [']']
  | ts => '[' :: ts.flatMap (fun t => "\n    ".toList ++ quote t ++ [',']) ++ "\n]".toList

def write (s : Settings) : Text :=
  line "attr_prefix" (quote s.stem) ++
  "\n[output]\n".toList ++
  line "diagnostic_logging" (flagText s.output.logging) ++
  line "summary" (quote s.output.summary.word) ++
  line "exit_code_zero" (flagText s.output.alwaysSucceed) ++
  "\n[compiler]\n".toList ++
  line "command" (listText s.compiler.command) ++
  line "format" (quote s.compiler.format.word) ++
  (match s.compiler.messages with
    | some m => line "messages" (quote m)
    | none => []) ++
  "\n[sources]\n".toList ++
  line "discover" (flagText s.sources.discover) ++
  line "patterns" (listText s.sources.patterns)

end Triage.Settings
