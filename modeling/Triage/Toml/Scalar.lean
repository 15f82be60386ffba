import Triage.Toml

set_option autoImplicit false

namespace Triage.Toml

def unsign : Text → Bool × Text
  | '+' :: r => (false, r)
  | '-' :: r => (true, r)
  | t => (false, t)

/-- The digits of a spelling in which single underscores may stand between two of them. -/
def digits? (isDigit : Char → Bool) (t : Text) : Option Text :=
  let runs := Text.split '_' t
  if runs.all fun r => r ≠ [] ∧ r.all isDigit then some runs.flatten else none

def numberIn (base : Nat) (ds : Text) : Nat :=
  ds.foldl (fun n c => base * n + Text.hexValue c) 0

def whole? (t : Text) : Option Nat :=
  match digits? Text.isDigit t with
  | some ds => if ds.head? = some '0' ∧ ds ≠ ['0'] then none else some (numberIn 10 ds)
  | none => none

def inBase? (base : Nat) (isDigit : Char → Bool) (t : Text) : Option Int :=
  match digits? isDigit t with
  | some ds =>
    let n := numberIn base ds
    if n < 0x8000000000000000 then some n else none
  | none => none

def integer? (t : Text) : Option Int :=
  match t with
  | '0' :: 'x' :: r => inBase? 16 Text.isHex r
  | '0' :: 'o' :: r => inBase? 8 (fun c => '0' ≤ c && c ≤ '7') r
  | '0' :: 'b' :: r => inBase? 2 (fun c => c = '0' || c = '1') r
  | t =>
    let (minus, r) := unsign t
    match whole? r with
    | some n =>
      if minus then (if n ≤ 0x8000000000000000 then some (-(n : Int)) else none)
      else if n < 0x8000000000000000 then some n else none
    | none => none

/-- Whether `mantissa * 10 ^ exponent` lies beyond every number of double precision, rounding
included. -/
def overflows (mantissa : Nat) (exponent : Int) : Bool :=
  let bound := Nat.pow 2 1024 - Nat.pow 2 970
  let places := (Text.ofNat mantissa).length
  if mantissa = 0 then false
  else if 310 < places + exponent then true
  else if places + exponent < 300 then false
  else match exponent with
    | .ofNat e => bound ≤ mantissa * Nat.pow 10 e
    | .negSucc e => bound * Nat.pow 10 (e + 1) ≤ mantissa

/-- A floating-point number. A positive one has to be within range. -/
def isFloat (t : Text) : Bool :=
  let (minus, r) := unsign t
  if r = "inf".toList ∨ r = "nan".toList then true
  else
    let base := r.takeWhile fun c => c ≠ 'e' && c ≠ 'E'
    let power := r.dropWhile fun c => c ≠ 'e' && c ≠ 'E'
    let whole := base.takeWhile (· ≠ '.')
    let fraction := base.dropWhile (· ≠ '.')
    if power = [] ∧ fraction = [] then false
    else
      let ds := digits? Text.isDigit
      let fraction? : Option Text := match fraction with
        | [] => some []
        | _ :: f => ds f
      let power? : Option Int := match power with
        | [] => some 0
        | _ :: p =>
          let (down, p) := unsign p
          (ds p).map fun p => if down then -(numberIn 10 p : Int) else numberIn 10 p
      match whole? whole, fraction?, power? with
      | some n, some f, some e =>
        minus || !overflows (n * Nat.pow 10 f.length + numberIn 10 f) (e - f.length)
      | _, _, _ => false

def takeField (width low high : Nat) (t : Text) : Option Text :=
  let ds := t.take width
  let n := numberIn 10 ds
  if ds.length = width ∧ ds.all Text.isDigit ∧ low ≤ n ∧ n ≤ high then some (t.drop width)
  else none

def daysIn (year month : Nat) : Nat :=
  if month = 2 then
    (if year % 4 = 0 ∧ (year % 100 ≠ 0 ∨ year % 400 = 0) then 29 else 28)
  else if month = 4 ∨ month = 6 ∨ month = 9 ∨ month = 11 then 30
  else 31

def takeDate (t : Text) : Option Text := do
  let year := numberIn 10 (t.take 4)
  let r ← takeField 4 0 9999 t
  let r ← Text.after? ['-'] r
  let month := numberIn 10 (r.take 2)
  let r ← takeField 2 1 12 r
  let r ← Text.after? ['-'] r
  takeField 2 1 (daysIn year month) r

def takeTime (t : Text) : Option Text := do
  let r ← takeField 2 0 23 t
  let r ← Text.after? [':'] r
  let r ← takeField 2 0 59 r
  let r ← Text.after? [':'] r
  let r ← takeField 2 0 60 r
  match r with
  | '.' :: r =>
    match r.takeWhile Text.isDigit with
    | [] => none
    | _ => some (r.dropWhile Text.isDigit)
  | r => some r

def isOffset (t : Text) : Bool :=
  match t with
  | [] => true
  | ['Z'] => true
  | ['z'] => true
  | c :: r =>
    (c = '+' || c = '-') &&
      (do
        let r ← takeField 2 0 23 r
        let r ← Text.after? [':'] r
        takeField 2 0 59 r) == some []

/-- A date, a time of day, or both with a distance from universal time. -/
def isDatetime (t : Text) : Bool :=
  match takeDate t with
  | some [] => true
  | some (c :: r) =>
    (c = 'T' || c = 't' || c = ' ') && (takeTime r).any isOffset
  | none => takeTime t == some []

def scalar? (t : Text) : Option Toml :=
  if t = "true".toList then some (.boolean true)
  else if t = "false".toList then some (.boolean false)
  else if isDatetime t then some (.datetime t)
  else if isFloat t then some (.float t)
  else (integer? t).map .integer

end Triage.Toml
