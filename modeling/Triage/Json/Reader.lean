import Triage.Json.Quoted

set_option autoImplicit false

namespace Triage.Json

def isGap (c : Char) : Bool := c = ' ' || c = '\n' || c = '\t' || c = '\r'

def skipGap (t : Text) : Text := t.dropWhile isGap

def takeRun (t : Text) : Option (Text × Text) :=
  match t.takeWhile Text.isDigit with
  | [] => none
  | ds => some (ds, t.dropWhile Text.isDigit)

def takeWhole : Text → Option (Text × Text)
  | '0' :: r => some (['0'], r)
  | t => takeRun t

def takeFraction : Text → Option (Text × Text)
  | '.' :: r => (takeRun r).map fun s => ('.' :: s.1, s.2)
  | t => some ([], t)

def takeExponent : Text → Option (Text × Text)
  | c :: r =>
    if c = 'e' ∨ c = 'E' then
      match r with
      | '+' :: r => (takeRun r).map fun s => (c :: '+' :: s.1, s.2)
      | '-' :: r => (takeRun r).map fun s => (c :: '-' :: s.1, s.2)
      | r => (takeRun r).map fun s => (c :: s.1, s.2)
    else some ([], c :: r)
  | [] => some ([], [])

def takeNumber (t : Text) : Option (Text × Text) := do
  let (sign, t) := match t with
    | '-' :: r => (['-'], r)
    | t => ([], t)
  let (whole, t) ← takeWhole t
  let (fraction, t) ← takeFraction t
  let (exponent, t) ← takeExponent t
  return (sign ++ whole ++ fraction ++ exponent, t)

def takeScalar (t : Text) : Option (Json × Text) :=
  match Text.after? "null".toList t, Text.after? "true".toList t, Text.after? "false".toList t with
  | some r, _, _ => some (.null, r)
  | _, some r, _ => some (.bool true, r)
  | _, _, some r => some (.bool false, r)
  | _, _, _ => (takeNumber t).map fun s => (.number s.1, s.2)

mutual

/-- A value and what follows it. The first argument bounds the number of steps. -/
def takeValue : Nat → Text → Option (Json × Text)
  | 0, _ => none
  | n + 1, t =>
    match skipGap t with
    | '"' :: r => (takeQuoted r).map fun s => (.string s.1, s.2)
    | '[' :: r =>
      match skipGap r with
      | ']' :: r => some (.array [], r)
      | r => (takeItems n r).map fun s => (.array s.1, s.2)
    | '\x7b' :: r =>
      match skipGap r with
      | '\x7d' :: r => some (.object [], r)
      | r => (takeMembers n r).map fun s => (.object s.1, s.2)
    | r => takeScalar r

def takeItems : Nat → Text → Option (List Json × Text)
  | 0, _ => none
  | n + 1, t =>
    match takeValue n t with
    | none => none
    | some (x, r) =>
      match skipGap r with
      | ',' :: r => (takeItems n r).map fun s => (x :: s.1, s.2)
      | ']' :: r => some ([x], r)
      | _ => none

def takeMembers : Nat → Text → Option (List (Text × Json) × Text)
  | 0, _ => none
  | n + 1, t =>
    match skipGap t with
    | '"' :: r =>
      match takeQuoted r with
      | none => none
      | some (k, r) =>
        match skipGap r with
        | ':' :: r =>
          match takeValue n r with
          | none => none
          | some (x, r) =>
            match skipGap r with
            | ',' :: r => (takeMembers n r).map fun s => ((k, x) :: s.1, s.2)
            | '\x7d' :: r => some ([(k, x)], r)
            | _ => none
        | _ => none
    | _ => none

end

def read (t : Text) : Option Json :=
  match takeValue (2 * t.length + 2) t with
  | some (j, r) => if r.all isGap then some j else none
  | none => none

end Triage.Json
