import Triage.Summary
import Triage.Rule.Record

set_option autoImplicit false

namespace Triage
open Json

namespace Tally

def fieldNames : List Text :=
  ["raised_codes".toList, "ignored_codes".toList, "unnecessarily_filtered_codes".toList,
   "unnecessary_catchall_filter".toList]

def toJson (t : Tally) : Json :=
  record [("raised_codes", ofMap codeKey ofNat t.raised),
    ("ignored_codes", ofMap codeKey ofNat t.ignored),
    ("unnecessarily_filtered_codes", .array (t.stale.keys.map fun c => ofNat c.toNat)),
    ("unnecessary_catchall_filter", .bool t.staleDefault)]

def ofJsonWith (count : Decoder Nat) : Decoder Tally := fun j => do
  match ← slots fieldNames j with
  | [raised, ignored, stale, staleDefault] =>
    return {
      raised := ← raised.required (map plainWord? count)
      ignored := ← ignored.required (map plainWord? count)
      stale := ← (stale.required (list word)).map SortedSet.ofList
      staleDefault := ← staleDefault.required flag }
  | _ => none

def ofJson : Decoder Tally := ofJsonWith natural

end Tally

namespace Summary

def toJson (s : Summary) : Json := record [("files", ofMap escape Tally.toJson s)]

def ofJsonWith (count : Decoder Nat) : Decoder Summary := fun j => do
  match ← slots ["files".toList] j with
  | [files] => files.required (map unescape (Tally.ofJsonWith count))
  | _ => none

def ofJson : Decoder Summary := ofJsonWith natural

end Summary
end Triage
