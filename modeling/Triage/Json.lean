import Triage.Text.Decimal

set_option autoImplicit false

/-!
JSON documents as they are spelled: a number keeps its digits and a string the characters between
its quotes, so that a document can be passed over without being understood. `Json.escape` and
`Json.unescape` go between a text and its spelling.
-/

namespace Triage

inductive Json where
  | null
  | bool (b : Bool)
  | number (spelling : Text)
  | string (spelling : Text)
  | array (items : List Json)
  | object (members : List (Text × Json))
  deriving Inhabited

end Triage
