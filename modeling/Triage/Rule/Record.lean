import Triage.Rule
import Triage.Json.Record
import Triage.Json.Writer

set_option autoImplicit false

namespace Triage
open Json

def codeKey (c : Code) : Text := Text.ofNat c.toNat

namespace FileRules

def fieldNames : List Text := ["default_rule".toList, "code_rules".toList]

def toJson (r : FileRules) : Json :=
  record [("default_rule", ofText r.default.name),
    ("code_rules", ofMap codeKey (fun c => ofText c.key) r.codes)]

def ofJson : Decoder FileRules := fun j => do
  match ← slots fieldNames j with
  | [default, codes] =>
    return {
      default := ← default.required (oneOf DefaultRule.ofName?)
      codes := ← codes.required (map plainWord? (oneOf CodeRule.ofKey?)) }
  | _ => none

end FileRules

namespace ProjectRules

def toJson (r : ProjectRules) : Json := ofMap escape FileRules.toJson r

def ofJson : Decoder ProjectRules := map unescape FileRules.ofJson

end ProjectRules
end Triage
