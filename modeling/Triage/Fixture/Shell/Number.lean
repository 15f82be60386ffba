import Triage.Fixture.Shell.Pattern

set_option autoImplicit false

namespace Triage.Shell.Number

def digit? (base : Nat) (c : Char) : Option Nat :=
  let n :=
    if c.isDigit then c.toNat - '0'.toNat
    else if 'a' ≤ c ∧ c ≤ 'f' then c.toNat - 'a'.toNat + 10
    else if 'A' ≤ c ∧ c ≤ 'F' then c.toNat - 'A'.toNat + 10
    else base
  if n < base then some n else none

def takeDigits (base : Nat) : Nat → Text → Nat × Text
  | n, [] => (n, [])
  | n, c :: r =>
    match digit? base c with
    | some d => takeDigits base (base * n + d) r
    | none => (n, c :: r)

def baseOf : Text → Nat × Text
  | '0' :: x :: c :: r =>
    if (x = 'x' ∨ x = 'X') ∧ (digit? 16 c).isSome then (16, c :: r) else (8, '0' :: x :: c :: r)
  | '0' :: r => (8, '0' :: r)
  | t => (10, t)

def takeNatural (base : Option Nat) (t : Text) : Option (Nat × Text) :=
  let (b, r) := match base with
    | some b => (b, t)
    | none => baseOf t
  if r.head?.any fun c => (digit? b c).isSome then some (takeDigits b 0 r) else none

def take (base : Option Nat) (t : Text) : Option (Bool × Nat × Text) :=
  match t.dropWhile Member.isSpace with
  | '-' :: r => (takeNatural base r).map fun s => (true, s)
  | '+' :: r => (takeNatural base r).map fun s => (false, s)
  | r => (takeNatural base r).map fun s => (false, s)

def least : Int := -0x8000000000000000
def greatest : Int := 0x7FFFFFFFFFFFFFFF

def clamp (negative : Bool) (n : Nat) : Int :=
  if negative then max least (-n) else min greatest n

def read? (base : Option Nat) (t : Text) : Option Int :=
  match take base t with
  | some (negative, n, r) =>
    if r.all Member.isSpace then some (clamp negative n) else none
  | none => if base.isNone ∧ t.all Member.isSpace then some 0 else none

def count? (t : Text) : Option Nat :=
  match read? (some 10) t with
  | some (.ofNat n) => if n < 0x80000000 then some n else none
  | _ => none

def render : Int → Text
  | .ofNat n => Nat.toDigits 10 n
  | .negSucc n => '-' :: Nat.toDigits 10 (n + 1)

end Triage.Shell.Number
