import Triage.Text

set_option autoImplicit false

namespace Triage

inductive SummaryMode where
  | none | terse | detailed | json
  deriving DecidableEq, Repr

namespace SummaryMode

def all : List SummaryMode := [.none, .terse, .detailed, .json]

def word : SummaryMode → Text
  | .none => "none".toList
  | .terse => "terse".toList
  | .detailed => "detailed".toList
  | .json => "json".toList

def ofWord? (w : Text) : Option SummaryMode := all.find? (·.word = w)

def default : SummaryMode := .none

end SummaryMode

inductive InputFormat where
  | tsc
  | json
  deriving DecidableEq, Repr

namespace InputFormat

def all : List InputFormat := [.tsc, .json]

def word : InputFormat → Text
  | .tsc => "tsc".toList
  | .json => "json".toList

def ofWord? (w : Text) : Option InputFormat := all.find? (·.word = w)

def default : InputFormat := .tsc

end InputFormat

namespace Settings

structure Output where
  logging : Bool
  summary : SummaryMode
  alwaysSucceed : Bool
  deriving DecidableEq, Repr

def Output.default : Output := ⟨true, .none, false⟩

structure Compiler where
  command : List Text
  format : InputFormat
  messages : Option Text
  deriving DecidableEq, Repr

def Compiler.default : Compiler := ⟨[], .default, none⟩

structure Sources where
  /-- Ask for the project's source files, so that files without diagnostics are known too. -/
  discover : Bool
  patterns : List Text
  deriving DecidableEq, Repr

def defaultPatterns : List Text :=
  ["*.ts".toList, "*.tsx".toList, "*.mts".toList, "*.cts".toList]

def Sources.default : Sources := ⟨true, defaultPatterns⟩

end Settings

structure Settings where
  stem : Text
  output : Settings.Output
  compiler : Settings.Compiler
  sources : Settings.Sources
  deriving DecidableEq, Repr

namespace Settings

def defaultStem : Text := "ts".toList

def default : Settings := ⟨defaultStem, .default, .default, .default⟩

instance : Inhabited Settings := ⟨default⟩

def fileName : Text := ".diagsieve.toml".toList

end Settings
end Triage
