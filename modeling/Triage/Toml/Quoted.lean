import Triage.Toml

set_option autoImplicit false

/-!
Quoted texts in TOML: between double quotes with escapes, between single quotes as they are, and
each of the two over several lines between tripled quotes. A writer takes the first form that needs
no escapes.
-/

namespace Triage.Toml

def isGap (c : Char) : Bool := c = ' ' || c = '\t'

/-- Characters that may stand for themselves in quotes and comments. -/
def isPlain (c : Char) : Bool := c = '\t' || (0x20 ≤ c.toNat && c.toNat ≠ 0x7F)

def plainEscape? (c : Char) : Option Char :=
  if c = '"' ∨ c = '\\' then some c
  else if c = 'b' then some '\x08'
  else if c = 't' then some '\t'
  else if c = 'n' then some '\n'
  else if c = 'f' then some '\x0c'
  else if c = 'r' then some '\r'
  else none

def numbered? (digits : Text) : Option Char :=
  if digits.all Text.isHex then Text.charOf? (Text.hexNumber digits) else none

def prepend (c : Option Char) (r : Option (Text × Text)) : Option (Text × Text) :=
  match c, r with
  | some c, some (t, r) => some (c :: t, r)
  | _, _ => none

def takeBasic : Text → Option (Text × Text)
  | [] => none
  | '"' :: r => some ([], r)
  | '\\' :: 'u' :: a :: b :: c :: d :: r => prepend (numbered? [a, b, c, d]) (takeBasic r)
  | '\\' :: 'U' :: a :: b :: c :: d :: e :: f :: g :: h :: r =>
    prepend (numbered? [a, b, c, d, e, f, g, h]) (takeBasic r)
  | '\\' :: c :: r => prepend (plainEscape? c) (takeBasic r)
  | c :: r => if c ≠ '\\' ∧ isPlain c then prepend (some c) (takeBasic r) else none

def takeLiteral : Text → Option (Text × Text)
  | [] => none
  | '\'' :: r => some ([], r)
  | c :: r => if isPlain c then prepend (some c) (takeLiteral r) else none

/-- Up to two quotes may stand right before the closing ones. -/
def closing (q : Char) : Text → Text × Text
  | c :: d :: r =>
    if c = q then (if d = q then ([q, q], r) else ([q], d :: r)) else ([], c :: d :: r)
  | [c] => if c = q then ([q], []) else ([], [c])
  | [] => ([], [])

def endsLine (t : Text) : Bool :=
  match t.dropWhile isGap with
  | '\n' :: _ => true
  | '\r' :: '\n' :: _ => true
  | _ => false

/-- The text up to three double quotes, and what follows them. A backslash at the end of a line
takes the blanks and line ends behind it away; the flag says that this is going on. -/
def takeMulti : Bool → Text → Option (Text × Text)
  | _, [] => none
  | _, '"' :: '"' :: '"' :: r => some (closing '"' r)
  | _, '\\' :: 'u' :: a :: b :: c :: d :: r =>
    prepend (numbered? [a, b, c, d]) (takeMulti false r)
  | _, '\\' :: 'U' :: a :: b :: c :: d :: e :: f :: g :: h :: r =>
    prepend (numbered? [a, b, c, d, e, f, g, h]) (takeMulti false r)
  | _, '\\' :: c :: r =>
    if endsLine (c :: r) then takeMulti true (c :: r)
    else prepend (plainEscape? c) (takeMulti false r)
  | skipping, '\r' :: '\n' :: r =>
    if skipping then takeMulti true r else prepend (some '\n') (takeMulti false r)
  | skipping, c :: r =>
    if skipping && (isGap c || c = '\n') then takeMulti true r
    else if c = '\n' ∨ (c ≠ '\\' ∧ isPlain c) then prepend (some c) (takeMulti false r)
    else none

def takeMultiLiteral : Text → Option (Text × Text)
  | [] => none
  | '\'' :: '\'' :: '\'' :: r => some (closing '\'' r)
  | '\r' :: '\n' :: r => prepend (some '\n') (takeMultiLiteral r)
  | c :: r => if c = '\n' ∨ isPlain c then prepend (some c) (takeMultiLiteral r) else none

/-- A line end right behind the opening quotes does not count. -/
def dropLineEnd : Text → Text
  | '\n' :: r => r
  | '\r' :: '\n' :: r => r
  | r => r

/-- A quoted text in any of the forms, and what follows it; none where no quote opens. -/
def takeQuoted : Text → Option (Text × Text)
  | '"' :: '"' :: '"' :: r => takeMulti false (dropLineEnd r)
  | '"' :: r => takeBasic r
  | '\'' :: '\'' :: '\'' :: r => takeMultiLiteral (dropLineEnd r)
  | '\'' :: r => takeLiteral r
  | _ => none

def needsEscape (c : Char) : Bool :=
  (c.toNat < 0x20 && c ≠ '\t' && c ≠ '\n') || c.toNat = 0x7F

def longestRun (q : Char) (t : Text) : Nat :=
  (t.foldl (fun (s : Nat × Nat) c =>
    let n := if c = q then s.1 + 1 else 0
    (n, max s.2 n)) (0, 0)).2

/-- Writes the characters between double quotes. Over several lines, line ends stand for themselves,
and so do quotes except every third one of a run. -/
def escapeIn (multi : Bool) : Nat → Text → Text
  | _, [] => []
  | run, c :: r =>
    if c = '"' then
      if run < (if multi then 2 else 0) then c :: escapeIn multi (run + 1) r
      else '\\' :: '"' :: escapeIn multi 0 r
    else
      (if c = '\\' then ['\\', '\\']
      else if c = '\n' then (if multi then ['\n'] else ['\\', 'n'])
      else if c = '\t' then ['\\', 't']
      else if c = '\r' then ['\\', 'r']
      else if c = '\x08' then ['\\', 'b']
      else if c = '\x0c' then ['\\', 'f']
      else if c.toNat < 0x20 ∨ c.toNat = 0x7F then '\\' :: 'u' :: Text.hexFour true c.toNat
      else [c]) ++ escapeIn multi 0 r

def writeBasic (t : Text) : Text := '"' :: escapeIn false 0 t ++ ['"']

/-- A text with a line end starts on a line of its own. -/
def openingEnd (t : Text) : Text := if t.contains '\n' then ['\n'] else []

def writeMulti (t : Text) : Text :=
  "\"\"\"".toList ++ openingEnd t ++ escapeIn true 0 t ++ "\"\"\"".toList

def writeMultiLiteral (t : Text) : Text := "'''".toList ++ openingEnd t ++ t ++ "'''".toList

def quote (t : Text) : Text :=
  let hard := t.any needsEscape
  let lines := t.contains '\n'
  let backslash := t.contains '\\'
  if !hard && !backslash && longestRun '"' t = 0 && !lines then writeBasic t
  else if !hard && longestRun '\'' t = 0 && !lines then '\'' :: t ++ ['\'']
  else if !hard && !backslash && longestRun '"' t ≤ 2 then writeMulti t
  else if !hard && longestRun '\'' t ≤ 2 then writeMultiLiteral t
  else if lines then writeMulti t
  else writeBasic t

end Triage.Toml
