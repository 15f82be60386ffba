import Triage.Json.Reader
import Triage.SortedMap

set_option autoImplicit false

/-!
Values of known shape inside JSON documents: words, numbers of bounded size, maps, and records. A
record is an object with its fields by name, or an array of its fields in order.
-/

namespace Triage.Json

abbrev Decoder (α : Type) := Json → Option α

def text : Decoder Text
  | .string s => unescape s
  | _ => none

def flag : Decoder Bool
  | .bool b => some b
  | _ => none

def plainNat? (s : Text) : Option Nat :=
  if s.head? = some '0' ∧ s ≠ ['0'] then none else Text.toNat? s

def plainWord? (s : Text) : Option UInt32 :=
  match plainNat? s with
  | some n => if n < UInt32.size then some (UInt32.ofNat n) else none
  | none => none

def word : Decoder UInt32
  | .number s => plainWord? s
  | _ => none

def count : Decoder Nat
  | .number s => plainNat? s
  | _ => none

def natural : Decoder Nat
  | .number s =>
    match plainNat? s with
    | some n => if n < UInt64.size then some n else none
    | none => none
  | _ => none

/-- One of several words, alone or as the only key of an object with nothing beside it. -/
def oneOf {α : Type} (ofWord? : Text → Option α) : Decoder α
  | .string s => (unescape s).bind ofWord?
  | .object [(k, .null)] => (unescape k).bind ofWord?
  | _ => none

def list {α : Type} (item : Decoder α) : Decoder (List α)
  | .array xs => xs.mapM item
  | _ => none

/-- A map, its keys read from their spelling; the last value of a key counts. -/
def map {κ ν : Type} [LT κ] [DecidableEq κ] [DecidableLT κ] [KeyOrder κ]
    (key : Text → Option κ) (value : Decoder ν) : Decoder (SortedMap κ ν)
  | .object ms => do
    let es ← ms.mapM fun m => do return ((← key m.1), (← value m.2))
    return SortedMap.ofList es
  | _ => none

inductive Slot where
  | given (j : Json)
  /-- Not among the named fields. -/
  | absent
  /-- The array of fields ends before it. -/
  | cut

namespace Slot
variable {α : Type}

def required (d : Decoder α) : Slot → Option α
  | .given j => d j
  | _ => none

def optional (d : Decoder α) : Slot → Option (Option α)
  | .given .null => some none
  | .given j => (d j).map some
  | .absent => some none
  | .cut => none

def optionalAnywhere (d : Decoder α) : Slot → Option (Option α)
  | .cut => some none
  | s => s.optional d

def orElse (d : Decoder α) (default : α) : Slot → Option α
  | .given j => d j
  | _ => some default

end Slot

/-- The fields of a record under the given names, in that order. A field given twice makes the
record unreadable, and so does a surplus of positional fields. Unknown names are passed over. -/
def slots (names : List Text) : Json → Option (List Slot)
  | .array xs =>
    if xs.length ≤ names.length then
      some (xs.map .given ++ List.replicate (names.length - xs.length) .cut)
    else none
  | .object ms => do
    let ms ← ms.mapM fun m => (unescape m.1).map (·, m.2)
    names.mapM fun n =>
      match ms.filter (·.1 = n) with
      | [] => some .absent
      | [(_, j)] => some (.given j)
      | _ => none
  | _ => none

def record (fields : List (String × Json)) : Json :=
  .object (fields.map fun f => (escape f.1.toList, f.2))

def ofNat (n : Nat) : Json := .number (Text.ofNat n)

def ofOption {α : Type} (f : α → Json) : Option α → Json
  | some a => f a
  | none => .null

def ofMap {κ ν : Type} [LT κ] (key : κ → Text) (value : ν → Json) (m : SortedMap κ ν) : Json :=
  .object (m.entries.map fun e => (key e.1, value e.2))

end Triage.Json
