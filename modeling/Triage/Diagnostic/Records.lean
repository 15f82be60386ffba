import Triage.Diagnostic.Record
import Triage.Path

set_option autoImplicit false

/-!
An array of diagnostic records as input. The severity may stand in any letter case, and everything
but code and severity may be left out. The array is taken whole or not at all.
-/

namespace Triage.Records
open Json

structure Loose where
  file : Option Text
  line : Option UInt32
  column : Option UInt32
  code : Code
  severity : Text
  message : Text
  deriving DecidableEq, Repr

inductive Error where
  | malformed
  | unknownSeverity (word : Text)
  deriving DecidableEq, Repr

namespace Loose

def ofJson : Decoder Loose := fun j => do
  match ← slots Diagnostic.fieldNames j with
  | [file, line, column, code, severity, message] =>
    return {
      file := ← file.optionalAnywhere text
      line := ← line.optionalAnywhere word
      column := ← column.optionalAnywhere word
      code := ← code.required word
      severity := ← severity.required text
      message := ← message.orElse text [] }
  | _ => none

/-- The diagnostic of a record, its file resolved against the base directory. -/
def diagnostic (base : Text) (r : Loose) : Except Error Diagnostic :=
  match Severity.ofAnyCase? r.severity with
  | some severity =>
    .ok {
      file := r.file.map (resolve base)
      line := r.line
      column := r.column
      code := r.code
      severity
      message := r.message }
  | none => .error (.unknownSeverity r.severity)

end Loose

/-- The diagnostics of a text, or the first reason why there are none. -/
def read (base t : Text) : Except Error (List Diagnostic) :=
  match (Json.read t).bind (list Loose.ofJson) with
  | some rs => rs.mapM (Loose.diagnostic base)
  | none => .error .malformed

end Triage.Records
