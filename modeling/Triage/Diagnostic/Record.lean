import Triage.Diagnostic
import Triage.Json.Record
import Triage.Json.Writer

set_option autoImplicit false

namespace Triage
open Json

def Severity.toJson (s : Severity) : Json := ofText s.word

def Severity.ofJson : Decoder Severity := oneOf ofWord?

def Verdict.toJson (v : Verdict) : Json := ofText v.word

def Verdict.ofJson : Decoder Verdict := oneOf ofWord?

namespace Diagnostic

def fieldNames : List Text :=
  ["file".toList, "line".toList, "column".toList, "code".toList, "category".toList,
   "message".toList]

def toJson (d : Diagnostic) : Json :=
  record [("file", ofOption ofText d.file),
    ("line", ofOption (fun n => ofNat n.toNat) d.line),
    ("column", ofOption (fun n => ofNat n.toNat) d.column),
    ("code", ofNat d.code.toNat),
    ("category", d.severity.toJson),
    ("message", ofText d.message)]

def ofJson : Decoder Diagnostic := fun j => do
  match ← slots fieldNames j with
  | [file, line, column, code, severity, message] =>
    return {
      file := ← file.optional text
      line := ← line.optional word
      column := ← column.optional word
      code := ← code.required word
      severity := ← severity.required Severity.ofJson
      message := ← message.required text }
  | _ => none

end Diagnostic
end Triage
