import Triage.Fixture.Shell.Script

set_option autoImplicit false

namespace Triage.Shell

inductive Token where
  | word (w : Word)
  | redirect (stream : Option Nat) (operator : Text)
  | operator (t : Text)
  | keyword (t : Text)
  | newline
  | finish

namespace Token

def name : Token → Text
  | .word _ => "word".toList
  | .redirect _ _ => "redirection".toList
  | .operator t | .keyword t => '"' :: t ++ ['"']
  | .newline => "newline".toList
  | .finish => "end of file".toList

def isOperator (s : Text) : Token → Bool
  | .operator t => t = s
  | _ => false

def isKeyword (s : Text) : Token → Bool
  | .keyword t => t = s
  | _ => false

end Token

structure Announced where
  number : Nat
  mark : Text
  tabs : Bool
  exact : Bool

structure Source where
  rest : Text
  line : Nat
  kept : Option Token
  literal : Bool
  awaited : List Announced
  documents : List (Nat × Word)

structure Fault where
  line : Nat
  message : Text

abbrev Reading := StateT Source (Except Fault)

namespace Source

def ofText (t : Text) : Source := ⟨t, 1, none, false, [], []⟩

def joined : Text → Nat → Text × Nat
  | '\\' :: '\n' :: r, n => joined r (n + 1)
  | t, n => (t, n)

end Source

namespace Reading

def fail {α : Type} (message : Text) : Reading α := do throw ⟨(← get).line, message⟩

def peek : Reading (Option Char) := do
  let s ← get
  let (rest, line) := Source.joined s.rest s.line
  set { s with rest := rest, line := line }
  return rest.head?

def advance : Reading Unit := modify fun s =>
  match s.rest with
  | [] => s
  | c :: r => { s with rest := r, line := if c = '\n' then s.line + 1 else s.line }

def accept (c : Char) : Reading Bool := do
  if (← peek) = some c then advance; return true else return false

def advanceBy : Nat → Reading Unit
  | 0 => return
  | n + 1 => do advance; advanceBy n

def keep (t : Token) : Reading Unit := modify fun s => { s with kept := some t }

def takeWhile (p : Char → Bool) : Nat → Reading Text
  | 0 => return []
  | n + 1 => do
    match ← peek with
    | some c => if p c then advance; return c :: (← takeWhile p n) else return []
    | none => return []

def refuse {α : Type} (t : Token) (wanted : Option Token) : Reading α :=
  fail <| t.name ++ " unexpected".toList ++
    match wanted with
    | some w => " (expecting ".toList ++ w.name ++ [')']
    | none => []

end Reading
end Triage.Shell
