import Triage.Text.Hex
import Triage.Text.Decimal

set_option autoImplicit false

/-!
TOML documents as values, and the rules by which statements add up to a document: a key is given
once, a table is headed once, and what dotted keys have opened only dotted keys go on with.
-/

namespace Triage

namespace Toml

inductive Origin where
  /-- By a header of its own, or as the document itself. -/
  | header
  /-- By a longer header. -/
  | implied
  /-- By a dotted key. -/
  | dotted
  /-- Between braces. -/
  | inline
  deriving DecidableEq, Repr

/-- Tables that statements further down may still go into by a dotted key. -/
def Origin.isOpen : Origin → Bool
  | .implied | .dotted => true
  | .header | .inline => false

end Toml

inductive Toml where
  | string (t : Text)
  | boolean (b : Bool)
  | integer (n : Int)
  | float (spelling : Text)
  | datetime (spelling : Text)
  | array (items : List Toml)
  | table (origin : Toml.Origin) (members : List (Text × Toml))
  | tables (items : List (List (Text × Toml)))
  deriving Inhabited

namespace Toml

abbrev Members := List (Text × Toml)

def member? (ms : Members) (key : Text) : Option Toml :=
  (ms.find? fun m => m.1 = key).map (·.2)

def replace (ms : Members) (key : Text) (v : Toml) : Members :=
  ms.map fun m => if m.1 = key then (key, v) else m

structure Draft where
  origin : Origin
  members : Members

/-- Changes the table that keys lead to, opening tables on the way; among several tables of one
name the last one is meant. Dotted keys do not enter tables that are closed to them. -/
def enter (byDots : Bool) (f : Draft → Option Draft) : List Text → Draft → Option Draft
  | [], d => f d
  | key :: rest, d =>
    match member? d.members key with
    | none => do
      let inner ← enter byDots f rest ⟨if byDots then .dotted else .implied, []⟩
      return { d with members := d.members ++ [(key, .table inner.origin inner.members)] }
    | some (.table origin ms) =>
      if origin = .inline ∨ (byDots ∧ !origin.isOpen) then none
      else do
        let inner ← enter byDots f rest ⟨origin, ms⟩
        return { d with members := replace d.members key (.table inner.origin inner.members) }
    | some (.tables ts) => do
      let inner ← enter byDots f rest ⟨.header, ts.getLast?.getD []⟩
      return { d with members := replace d.members key (.tables (ts.dropLast ++ [inner.members])) }
    | some _ => none

/-- Gives a key its value. Behind dots the table has to be one that dots have opened. -/
def assign (path : List Text) (key : Text) (v : Toml) (d : Draft) : Option Draft :=
  enter true (fun d =>
    if path ≠ [] ∧ d.origin ≠ .dotted then none
    else if (member? d.members key).isSome then none
    else some { d with members := d.members ++ [(key, v)] }) path d

def head (path : List Text) (key : Text) (d : Draft) : Option Draft :=
  enter false (fun d =>
    match member? d.members key with
    | none => some { d with members := d.members ++ [(key, .table .header [])] }
    | some (.table .implied ms) =>
      some { d with members := replace d.members key (.table .header ms) }
    | some _ => none) path d

def headNext (path : List Text) (key : Text) (d : Draft) : Option Draft :=
  enter false (fun d =>
    match member? d.members key with
    | none => some { d with members := d.members ++ [(key, .tables [[]])] }
    | some (.tables ts) => some { d with members := replace d.members key (.tables (ts ++ [[]])) }
    | some _ => none) path d

structure Key where
  path : List Text
  last : Text
  deriving DecidableEq, Repr

def Key.parts (k : Key) : List Text := k.path ++ [k.last]

inductive Statement where
  | assignment (key : Key) (value : Toml)
  | header (key : Key)
  | nextHeader (key : Key)

/-- A document so far, and the keys of the table that assignments go to. -/
structure Progress where
  root : Draft
  current : List Text

def Progress.start : Progress := ⟨⟨.header, []⟩, []⟩

def Progress.step (p : Progress) : Statement → Option Progress
  | .assignment k v => do
    return { p with root := ← enter false (assign k.path k.last v) p.current p.root }
  | .header k => do return ⟨← head k.path k.last p.root, k.parts⟩
  | .nextHeader k => do return ⟨← headNext k.path k.last p.root, k.parts⟩

def ofStatements (l : List Statement) : Option Toml := do
  let p ← l.foldlM Progress.step Progress.start
  return .table .header p.root.members

end Toml
end Triage
