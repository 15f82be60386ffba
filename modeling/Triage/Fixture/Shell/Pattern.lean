import Triage.Text

set_option autoImplicit false

namespace Triage.Shell

structure Glyph where
  char : Char
  exact : Bool
  deriving DecidableEq, Repr

namespace Glyph

def isBare (g : Glyph) (c : Char) : Bool := !g.exact && g.char = c

def unescape : List Glyph → List Glyph
  | [] => []
  | [g] => if g.isBare '\\' then [⟨'\\', true⟩] else [g]
  | g :: h :: r => if g.isBare '\\' then ⟨h.char, true⟩ :: unescape r else g :: unescape (h :: r)

end Glyph

inductive Member where
  | range (low high : Char)
  | named (name : Text)
  deriving DecidableEq, Repr

namespace Member

def isBlank (c : Char) : Bool := c = ' ' || c = '\t'

def isSpace (c : Char) : Bool := c = ' ' || ('\t' ≤ c && c ≤ '\r')

def isGraphic (c : Char) : Bool := '!' ≤ c && c ≤ '~'

def classes : List (String × (Char → Bool)) :=
  [("alpha", Char.isAlpha), ("digit", Char.isDigit), ("alnum", Char.isAlphanum),
   ("upper", Char.isUpper), ("lower", Char.isLower), ("blank", isBlank), ("space", isSpace),
   ("graph", isGraphic), ("print", fun c => isGraphic c || c = ' '),
   ("punct", fun c => isGraphic c && !c.isAlphanum),
   ("cntrl", fun c => c < ' ' || c = '\x7f'),
   ("xdigit", fun c => c.isDigit || ('a' ≤ c && c ≤ 'f') || ('A' ≤ c && c ≤ 'F'))]

def holds : Member → Char → Bool
  | .range low high, c => low ≤ c && c ≤ high
  | .named name, c => (classes.find? fun e => e.1.toList = name).any fun e => e.2 c

end Member

inductive Atom where
  | char (c : Char)
  | any
  | many
  | oneOf (negated : Bool) (members : List Member)
  deriving DecidableEq, Repr

abbrev Pattern := List Atom

namespace Pattern

def takeNamed : List Glyph → Option (Text × List Glyph)
  | ⟨':', false⟩ :: r =>
    let name := r.takeWhile fun g => g.char.isAlpha
    match r.drop name.length with
    | ⟨':', false⟩ :: ⟨']', false⟩ :: r => some (name.map (·.char), r)
    | _ => none
  | _ => none

/-- The members of a set and what follows its closing bracket, at most so many. A bracket that comes
first is a member. -/
def takeMembers : Nat → Bool → List Glyph → Option (List Member × List Glyph)
  | 0, _, _ => none
  | _ + 1, _, [] => none
  | n + 1, first, g :: r =>
    let more (m : Member) (r : List Glyph) :=
      (takeMembers n false r).map fun s => (m :: s.1, s.2)
    if g.isBare ']' && !first then some ([], r)
    else
      match if g.isBare '[' then takeNamed r else none with
      | some (name, r) => more (.named name) r
      | none =>
        match r with
        | d :: h :: r' =>
          if d.isBare '-' && !h.isBare ']' then more (.range g.char h.char) r'
          else more (.range g.char g.char) r
        | _ => more (.range g.char g.char) r

def takeAtoms : Nat → List Glyph → Pattern
  | 0, _ => []
  | _ + 1, [] => []
  | n + 1, g :: r =>
    if g.exact then .char g.char :: takeAtoms n r
    else if g.char = '?' then .any :: takeAtoms n r
    else if g.char = '*' then .many :: takeAtoms n r
    else if g.char = '[' then
      let negated := r.head?.any (·.isBare '!')
      match takeMembers r.length true (if negated then r.tail else r) with
      | some (ms, rest) => .oneOf negated ms :: takeAtoms n rest
      | none => .char '[' :: takeAtoms n r
    else .char g.char :: takeAtoms n r

def ofGlyphs (gs : List Glyph) : Pattern := takeAtoms gs.length (Glyph.unescape gs)

def anyTail (p : Text → Bool) : Text → Bool
  | [] => p []
  | c :: r => p (c :: r) || anyTail p r

def holds : Pattern → Text → Bool
  | [], t => t.isEmpty
  | .many :: r, t => anyTail (holds r) t
  | .char a :: r, c :: t => a = c && holds r t
  | .any :: r, _ :: t => holds r t
  | .oneOf negated ms :: r, c :: t => (ms.any (·.holds c) != negated) && holds r t
  | _ :: _, [] => false

def first (t : Text) : Text := t.takeWhile (· ≠ '\x00')

def trimFront (p : Pattern) (longest : Bool) (t : Text) : Text :=
  let cuts := (List.range (t.length + 1)).filter fun n => holds p (first (t.take n))
  match if longest then cuts.getLast? else cuts.head? with
  | some n => t.drop n
  | none => t

def trimBack (p : Pattern) (longest : Bool) (t : Text) : Text :=
  let length := if longest then (first t).length else t.length
  let cuts := (List.range (length + 1)).filter fun n => holds p (first (t.drop n))
  match if longest then cuts.head? else cuts.getLast? with
  | some n => t.take n
  | none => t

end Pattern
end Triage.Shell
