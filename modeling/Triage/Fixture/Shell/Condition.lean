import Triage.Fixture.Shell.Number

set_option autoImplicit false

namespace Triage.Shell.Condition

inductive Kind where
  | unary | binary | negation | conjunction | disjunction | opening | closing
  deriving DecidableEq, Repr

def kind? (t : Text) : Option Kind :=
  let within (l : List String) : Bool := l.any fun s => s.toList = t
  if within ["=", "!=", "<", ">", "-eq", "-ne", "-ge", "-gt", "-le", "-lt", "-nt", "-ot", "-ef"]
  then some .binary
  else if t = ['!'] then some .negation
  else if t = ['-', 'a'] then some .conjunction
  else if t = ['-', 'o'] then some .disjunction
  else if t = ['('] then some .opening
  else if t = [')'] then some .closing
  else match t with
    | ['-', c] => if "rwxefdcbpugkstznhOGLS".toList.contains c then some .unary else none
    | _ => none

def sign? (args : List Text) : Option Kind :=
  match args with
  | [] => none
  | t :: r =>
    match kind? t, r with
    | some .unary, [] => none
    | some .unary, [_] => some .unary
    | some .unary, s :: _ => if kind? s = some .binary then none else some .unary
    | some .opening, [] => none
    | k, _ => k

inductive Error where
  | missingBracket
  | unexpectedOperator (t : Text)
  | argumentExpected (t : Text)
  | closingExpected
  | illegalNumber (t : Text)
  deriving DecidableEq, Repr

def Error.after (t what : Text) : Text := if t = [] then what else t ++ ": ".toList ++ what

def Error.message : Error → Text
  | .missingBracket => "missing ]".toList
  | .unexpectedOperator t => Error.after t "unexpected operator".toList
  | .argumentExpected t => Error.after t "argument expected".toList
  | .closingExpected => "closing paren expected".toList
  | .illegalNumber t => "Illegal number: ".toList ++ t

abbrev Files := Char → Text → Bool

abbrev Reader := StateT (List Text) (Except Error)

def number (t : Text) : Reader Int :=
  match Number.read? (some 10) t with
  | some n => return n
  | none => throw (.illegalNumber t)

def advance : Reader Unit := modify List.tail

def following : Reader (Option Kind) := do return sign? (← get).tail

def compare (files : Files) (sign a b : Text) : Reader Bool := do
  if sign = ['='] then return a = b
  else if sign = ['!', '='] then return a ≠ b
  else if sign = ['<'] then return a < b
  else if sign = ['>'] then return b < a
  else if sign = "-nt".toList ∨ sign = "-ot".toList then return false
  else if sign = "-ef".toList then return a = b && files 'e' a
  else
    let a ← number a
    let b ← number b
    if sign = "-eq".toList then return a = b
    else if sign = "-ne".toList then return a ≠ b
    else if sign = "-ge".toList then return b ≤ a
    else if sign = "-gt".toList then return b < a
    else if sign = "-le".toList then return a ≤ b
    else return a < b

mutual

def readAny (files : Files) : Nat → Reader Bool
  | 0 => return false
  | n + 1 => do
    let a ← readAll files n
    if (← following) = some .disjunction then
      advance
      advance
      let b ← readAny files n
      return a || b
    else return a

def readAll (files : Files) : Nat → Reader Bool
  | 0 => return false
  | n + 1 => do
    let a ← readNegated files n
    if (← following) = some .conjunction then
      advance
      advance
      let b ← readAll files n
      return a && b
    else return a

def readNegated (files : Files) : Nat → Reader Bool
  | 0 => return false
  | n + 1 => do
    if sign? (← get) = some .negation then
      if (← get).tail ≠ [] then
        advance
        return !(← readNegated files n)
      else return true
    else readOne files n

def readOne (files : Files) : Nat → Reader Bool
  | 0 => return false
  | n + 1 => do
    match ← get with
    | [] => return false
    | t :: _ =>
      match sign? (← get) with
      | some .opening =>
        advance
        if sign? (← get) = some .closing then return false
        let a ← readAny files n
        advance
        if sign? (← get) ≠ some .closing then throw .closingExpected
        return a
      | some .unary =>
        advance
        match (← get).head? with
        | none => throw (.argumentExpected t)
        | some a =>
          let letter := t.getLast?.getD '-'
          if letter = 'z' then return a = []
          else if letter = 'n' then return a ≠ []
          else if letter = 't' then
            let _ ← number a
            return false
          else return files letter a
      | _ =>
        if (← following) = some .binary then
          advance
          let s := (← get).head?.getD []
          advance
          match (← get).head? with
          | none => throw (.argumentExpected s)
          | some b => compare files s t b
        else return t ≠ []

end

/-- Whether a condition holds. Of three arguments with a binary sign in the middle the others are
its operands; else of three or four, parentheses around the rest come first, then a negation. -/
def judge (files : Files) : Nat → List Text → Except Error Bool
  | 0, _ => .ok false
  | n + 1, args => do
    let few : Bool := args.length = 3 || args.length = 4
    match args with
    | [] => return false
    | [a, s, b] =>
      if kind? s = some .binary then return (← (compare files s a b).run []).1
    | _ => pure ()
    if few && args.head? = some ['!'] then
      return !(← judge files n args.tail)
    else
      let inner := few && args.head? = some ['('] && args.getLast? = some [')']
      let args := if inner then args.tail.dropLast else args
      let (r, rest) ← (readAny files (5 * args.length + 5)).run args
      match rest with
      | t :: _ :: _ => throw (.unexpectedOperator t)
      | _ => return r

def holds (files : Files) (bracket : Bool) (args : List Text) : Except Error Bool :=
  if bracket then
    if args.getLast? = some [']'] then judge files args.length args.dropLast
    else .error .missingBracket
  else judge files (args.length + 1) args

end Triage.Shell.Condition
