import Triage.Text.Class

set_option autoImplicit false

namespace Triage

abbrev Code := UInt32

inductive Severity where
  | warning | error | suggestion | message
  deriving DecidableEq, Repr

namespace Severity

def all : List Severity := [.warning, .error, .suggestion, .message]

def word : Severity → Text
  | .warning => "warning".toList
  | .error => "error".toList
  | .suggestion => "suggestion".toList
  | .message => "message".toList

def ofWord? (w : Text) : Option Severity := all.find? (·.word = w)

def ofAnyCase? (w : Text) : Option Severity := ofWord? (Text.lower w)

def informs : Severity → Bool
  | .suggestion | .message => true
  | .warning | .error => false

theorem ofWord?_word (s : Severity) : ofWord? s.word = some s := by cases s <;> decide

end Severity

inductive Verdict where
  | report (as : Severity)
  | ignore
  deriving DecidableEq, Repr

namespace Verdict

def all : List Verdict := Severity.all.map .report ++ [.ignore]

def word : Verdict → Text
  | .report s => s.word
  | .ignore => "ignore".toList

def ofWord? (w : Text) : Option Verdict := all.find? (·.word = w)

end Verdict

/-- One report of the compiler. Without a file it concerns the whole project. -/
structure Diagnostic where
  file : Option Text
  line : Option UInt32
  column : Option UInt32
  code : Code
  severity : Severity
  message : Text
  deriving DecidableEq, Repr

namespace Diagnostic

def under (d : Diagnostic) : Verdict → Option Diagnostic
  | .report s => some { d with severity := s }
  | .ignore => none

end Diagnostic
end Triage
