import Triage.Diagnostic
import Triage.Json.Record

set_option autoImplicit false

namespace Triage
open Json

abbrev MessageTable := SortedMap Code Text

namespace MessageTable

/-- The table of messages with their codes. A later member replaces an earlier one with the same
message; then the members are taken in the order of their messages. -/
def ofMembers (l : List (Text × Code)) : MessageTable :=
  (SortedMap.ofList l).entries.foldl (fun t m => t.insertNew m.2 m.1) .empty

def entryCode : Decoder Code := fun j => do
  match ← slots ["code".toList] j with
  | [code] => code.required word
  | _ => none

def read (t : Text) : Option MessageTable := do
  match ← Json.read t with
  | .object ms =>
    let ms ← ms.mapM fun m => do return ((← unescape m.1), (← entryCode m.2))
    return ofMembers ms
  | _ => none

end MessageTable
end Triage
