import Triage.Toml.Quoted
import Triage.Toml.Scalar

set_option autoImplicit false

namespace Triage.Toml

def skipGap (t : Text) : Text := t.dropWhile isGap

def isBare (c : Char) : Bool :=
  Text.isDigit c || ('a' ≤ c && c ≤ 'z') || ('A' ≤ c && c ≤ 'Z') || c = '_' || c = '-'

def takePart (t : Text) : Option (Text × Text) :=
  match t with
  | '"' :: r => takeBasic r
  | '\'' :: r => takeLiteral r
  | t =>
    match t.takeWhile isBare with
    | [] => none
    | p => some (p, t.dropWhile isBare)

/-- A key of at most so many parts, the blanks around them, and what follows. -/
def takeKey : Nat → Text → Option (Key × Text)
  | 0, _ => none
  | n + 1, t =>
    match takePart (skipGap t) with
    | none => none
    | some (p, r) =>
      match skipGap r with
      | '.' :: r => (takeKey n r).map fun s => ({ s.1 with path := p :: s.1.path }, s.2)
      | r => some (⟨[], p⟩, r)

def limit : Nat := 79

/-- What follows blanks, line ends and comments; the flag says that a comment is open. -/
def skipFill : Bool → Text → Option Text
  | _, [] => some []
  | _, '\n' :: r => skipFill false r
  | _, '\r' :: '\n' :: r => skipFill false r
  | true, c :: r => if isPlain c then skipFill true r else none
  | false, c :: r =>
    if c = '#' then skipFill true r
    else if isGap c then skipFill false r
    else some (c :: r)

/-- The spelling of an unquoted value, and what follows it. A time may be set off from its date by a
blank. -/
def takeSpelling (t : Text) : Text × Text :=
  let ends (c : Char) : Bool :=
    isGap c || c = ',' || c = ']' || c = '\x7d' || c = '#' || c = '\n' || c = '\r'
  let s := t.takeWhile (!ends ·)
  let r := t.dropWhile (!ends ·)
  match takeDate s, r with
  | some [], ' ' :: more =>
    if (takeField 2 0 99 more).isSome then
      (s ++ ' ' :: more.takeWhile (!ends ·), more.dropWhile (!ends ·))
    else (s, r)
  | _, _ => (s, r)

mutual

/-- A value and what follows it. The first number bounds the steps, the second the depth. -/
def takeValue : Nat → Nat → Text → Option (Toml × Text)
  | 0, _, _ => none
  | n + 1, depth, t =>
    match t with
    | '[' :: r =>
      match depth with
      | 0 => none
      | depth + 1 => (takeItems n depth r).map fun s => (.array s.1, s.2)
    | '\x7b' :: r =>
      match depth with
      | 0 => none
      | depth + 1 =>
        match skipGap r with
        | '\x7d' :: r => some (.table .inline [], r)
        | r => do
          let (ms, r) ← takeMembers n depth ⟨.inline, []⟩ r
          return (.table .inline ms, r)
    | '"' :: _ => (takeQuoted t).map fun s => (.string s.1, s.2)
    | '\'' :: _ => (takeQuoted t).map fun s => (.string s.1, s.2)
    | t =>
      let (s, r) := takeSpelling t
      (scalar? s).map (·, r)

/-- Items up to the closing bracket; a comma may stand behind the last one. -/
def takeItems : Nat → Nat → Text → Option (List Toml × Text)
  | 0, _, _ => none
  | n + 1, depth, t =>
    match skipFill false t with
    | none => none
    | some (']' :: r) => some ([], r)
    | some t =>
      match takeValue n depth t with
      | none => none
      | some (v, r) =>
        match skipFill false r with
        | some (',' :: r) => (takeItems n depth r).map fun s => (v :: s.1, s.2)
        | some (']' :: r) => some ([v], r)
        | _ => none

def takeMembers : Nat → Nat → Draft → Text → Option (Members × Text)
  | 0, _, _, _ => none
  | n + 1, depth, d, t =>
    match takeKey limit t with
    | none => none
    | some (k, r) =>
      match r with
      | '=' :: r =>
        match takeValue n depth (skipGap r) with
        | none => none
        | some (v, r) =>
          match assign k.path k.last v d with
          | none => none
          | some d =>
            match skipGap r with
            | ',' :: r => takeMembers n depth d r
            | '\x7d' :: r => some (d.members, r)
            | _ => none
      | _ => none

end

/-- What follows the rest of a line that may hold blanks and a comment. -/
def takeLineEnd (t : Text) : Option Text :=
  let t := match skipGap t with
    | '#' :: r => r.dropWhile isPlain
    | t => t
  match t with
  | [] => some []
  | '\n' :: r => some r
  | '\r' :: '\n' :: r => some r
  | _ => none

/-- One statement from the start of its line, and what follows the line. -/
def takeStatement (t : Text) : Option (Statement × Text) :=
  match t with
  | '[' :: '[' :: r => do
    let (k, r) ← takeKey limit r
    let r ← Text.after? [']', ']'] r
    return (.nextHeader k, ← takeLineEnd r)
  | '[' :: r => do
    let (k, r) ← takeKey limit r
    let r ← Text.after? [']'] r
    return (.header k, ← takeLineEnd r)
  | t => do
    let (k, r) ← takeKey limit t
    let r ← Text.after? ['='] r
    let (v, r) ← takeValue (2 * r.length + 2) limit (skipGap r)
    return (.assignment k v, ← takeLineEnd r)

def statements : Nat → Text → Option (List Statement)
  | 0, _ => none
  | n + 1, t =>
    match skipGap t with
    | [] => some []
    | '\n' :: r => statements n r
    | '\r' :: '\n' :: r => statements n r
    | '#' :: r => (takeLineEnd ('#' :: r)).bind (statements n)
    | t =>
      match takeStatement t with
      | none => none
      | some (s, r) => (statements n r).map (s :: ·)

/-- A mark of the byte order in front does not count. -/
def dropMark : Text → Text
  | '\uFEFF' :: r => r
  | r => r

def read (t : Text) : Option Toml :=
  let t := dropMark t
  (statements (t.length + 1) t).bind ofStatements

end Triage.Toml
