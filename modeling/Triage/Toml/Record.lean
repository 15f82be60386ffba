import Triage.Toml.Reader

set_option autoImplicit false

/-!
Values of known shape inside TOML documents: texts, truth values, words, lists of texts, and
records in which every field may be left out. A record is a table, or an array of its fields in
order.
-/

namespace Triage.Toml

abbrev Decoder (α : Type) := Toml → Option α

def text : Decoder Text
  | .string t => some t
  | _ => none

def flag : Decoder Bool
  | .boolean b => some b
  | _ => none

def texts : Decoder (List Text)
  | .array xs => xs.mapM text
  | _ => none

def isVacant : Toml → Bool
  | .table _ [] => true
  | .array [] => true
  | _ => false

/-- One of several words, alone or as the only key of a table, with nothing below it. -/
def oneOf {α : Type} (ofWord? : Text → Option α) : Decoder α
  | .string t => ofWord? t
  | .table _ [(k, v)] => if isVacant v then ofWord? k else none
  | _ => none

/-- The fields of a record under the given names, in that order, as far as they are given. Unknown
names and a surplus of positional fields are passed over; a date is a record of unknown fields
only. -/
def slots (names : List Text) : Toml → Option (List (Option Toml))
  | .table _ ms => some (names.map (member? ms))
  | .array xs =>
    some ((xs.take names.length).map some ++ List.replicate (names.length - xs.length) none)
  | .tables ts =>
    some ((ts.take names.length).map (fun ms => some (.table .header ms)) ++
      List.replicate (names.length - ts.length) none)
  | .datetime _ => some (names.map fun _ => none)
  | _ => none

def orElse {α : Type} (d : Decoder α) (default : α) : Option Toml → Option α
  | some v => d v
  | none => some default

end Triage.Toml
