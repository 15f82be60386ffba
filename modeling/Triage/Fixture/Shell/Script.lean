import Triage.Text

set_option autoImplicit false

namespace Triage.Shell

inductive Side where
  | front | back
  deriving DecidableEq, Repr

inductive Remedy where
  | substitute
  | assign
  | complain
  | replace
  deriving DecidableEq, Repr

inductive Opening where
  | input
  | output (forced : Bool)
  | append
  | both
  deriving DecidableEq, Repr

mutual

inductive Piece where
  | bare (c : Char)
  | exact (c : Char)
  | quotes
  | parameter (quoted : Bool) (name : Text) (use : Use)
  | output (quoted : Bool) (script : Command)
  | sum (quoted : Bool) (expression : List Piece)

inductive Use where
  | value
  | length
  | fallback (remedy : Remedy) (ofEmpty : Bool) (word : List Piece)
  | trim (side : Side) (longest : Bool) (pattern : List Piece)
  | ill

inductive Redirect where
  | file (stream : Nat) (opening : Opening) (name : List Piece)
  | duplicate (stream : Nat) (source : List Piece)
  | document (stream : Nat) (number : Nat)

inductive Command where
  | nothing
  | simple (line : Nat) (assignments : List (Text × List Piece)) (words : List (List Piece))
      (redirects : List Redirect)
  | pipe (commands : List Command)
  | background (c : Command)
  | negated (c : Command)
  | both (first second : Command)
  | either (first second : Command)
  | sequence (first second : Command)
  | subshell (line : Nat) (c : Command) (redirects : List Redirect)
  | redirected (line : Nat) (c : Command) (redirects : List Redirect)
  | branch (condition yes no : Command)
  | loop (wanted : Bool) (condition body : Command)
  | each (line : Nat) (name : Text) (words : List (List Piece)) (body : Command)
  | choose (line : Nat) (subject : List Piece) (clauses : List (List (List Piece) × Command))
  | define (line : Nat) (name : Text) (body : Command)

end

abbrev Word := List Piece

def isNameStart (c : Char) : Bool := ('a' ≤ c && c ≤ 'z') || ('A' ≤ c && c ≤ 'Z') || c = '_'

def isNameChar (c : Char) : Bool := isNameStart c || ('0' ≤ c && c ≤ '9')

def isName (t : Text) : Bool :=
  match t with
  | [] => false
  | c :: r => isNameStart c && r.all isNameChar

namespace Word

def plain? : Word → Option Text
  | [] => some []
  | .bare c :: r => (plain? r).map (c :: ·)
  | _ :: _ => none

def assignment? (w : Word) : Option (Text × Word) :=
  let rec go (name : Text) : Word → Option (Text × Word)
    | .bare c :: r =>
      if c = '=' then if isName name.reverse then some (name.reverse, r) else none
      else go (c :: name) r
    | _ => none
  go [] w

def spelling : Word → Text
  | [] => []
  | .bare c :: r => c :: spelling r
  | .exact c :: r => c :: spelling r
  | _ :: r => spelling r

end Word
end Triage.Shell
