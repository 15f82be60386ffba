import Triage.Fixture.Octets

set_option autoImplicit false

namespace Triage.Cat

structure Options where
  number : Bool
  numberFilled : Bool
  squeeze : Bool
  ends : Bool
  tabs : Bool
  marks : Bool
  deriving DecidableEq, Repr

namespace Options

def none : Options := ⟨false, false, false, false, false, false⟩

def add (o : Options) (c : Char) : Option Options :=
  if c = 'A' then some { o with marks := true, ends := true, tabs := true }
  else if c = 'b' then some { o with number := true, numberFilled := true }
  else if c = 'e' then some { o with marks := true, ends := true }
  else if c = 'E' then some { o with ends := true }
  else if c = 'n' then some { o with number := true }
  else if c = 's' then some { o with squeeze := true }
  else if c = 't' then some { o with marks := true, tabs := true }
  else if c = 'T' then some { o with tabs := true }
  else if c = 'u' then some o
  else if c = 'v' then some { o with marks := true }
  else .none

def names : List (Text × Option Char) :=
  [("number-nonblank".toList, some 'b'), ("number".toList, some 'n'),
   ("squeeze-blank".toList, some 's'), ("show-nonprinting".toList, some 'v'),
   ("show-ends".toList, some 'E'), ("show-tabs".toList, some 'T'), ("show-all".toList, some 'A'),
   ("help".toList, .none), ("version".toList, .none)]

end Options

def candidates (t : Text) : List (Text × Option Char) :=
  match Options.names.filter fun e => e.1 = t with
  | [] => Options.names.filter fun e => (Text.after? t e.1).isSome
  | es => es

def spelled (t : Text) : Text := "'--".toList ++ t ++ ['\'']

inductive Stop where
  | about
  | wrong (message : Text)
  deriving DecidableEq, Repr

def addLong (o : Options) (t : Text) : Except Stop Options :=
  let name := t.takeWhile (· ≠ '=')
  match candidates name with
  | [] => .error (.wrong ("unrecognized option ".toList ++ spelled t))
  | [(full, letter)] =>
    if name.length < t.length then
      .error (.wrong ("option ".toList ++ spelled full ++ " doesn't allow an argument".toList))
    else match letter with
      | none => .error .about
      | some c => .ok ((o.add c).getD o)
  | es => .error (.wrong ("option ".toList ++ spelled t ++ " is ambiguous; possibilities:".toList ++
      es.flatMap fun e => ' ' :: spelled e.1))

def addLetters (o : Options) : Text → Except Stop Options
  | [] => .ok o
  | c :: r =>
    match o.add c with
    | some o => addLetters o r
    | none => .error (.wrong ("invalid option -- '".toList ++ [c, '\'']))

def parse (o : Options) : List Text → Except Stop (Options × List Text)
  | [] => .ok (o, [])
  | a :: r =>
    match a with
    | ['-', '-'] => .ok (o, r)
    | '-' :: '-' :: t => do parse (← addLong o t) r
    | '-' :: c :: t => do parse (← addLetters o (c :: t)) r
    | _ => do
      let (o, files) ← parse o r
      return (o, a :: files)

structure Layout where
  fresh : Bool
  afterEmpty : Bool
  lines : Nat
  held : Bool

def Layout.start : Layout := ⟨true, false, 0, false⟩

def numbered (n : Nat) : Text := Text.padStart 6 (Nat.toDigits 10 n) ++ ['\t']

def plainMark (c : Char) : Text :=
  if c.toNat < 32 then ['^', Char.ofNat (c.toNat + 64)]
  else if c.toNat = 127 then ['^', '?']
  else [c]

def marked (o : Options) (c : Char) : Text :=
  if c = '\t' then (if o.tabs then ['^', 'I'] else [c])
  else if !o.marks then [c]
  else if c.toNat < 128 then plainMark c
  else 'M' :: '-' :: plainMark (Char.ofNat (c.toNat - 128))

def layOut (o : Options) : Layout → Text → Text × Layout
  | l, [] => ([], l)
  | l, c :: r =>
    let before : Text :=
      if l.held then (if c = '\n' then ['^', 'M'] else ['\r']) else []
    let lineEnd : Text := if o.ends then ['$', '\n'] else ['\n']
    if c = '\n' then
      if l.fresh then
        if o.squeeze && l.afterEmpty then layOut o l r
        else
          let counts := o.number && !o.numberFilled
          let n := if counts then l.lines + 1 else l.lines
          let (t, l) := layOut o ⟨true, true, n, false⟩ r
          ((if counts then numbered n else []) ++ lineEnd ++ t, l)
      else
        let (t, l) := layOut o ⟨true, false, l.lines, false⟩ r
        (before ++ lineEnd ++ t, l)
    else
      let n := if l.fresh && o.number then l.lines + 1 else l.lines
      let start := if l.fresh && o.number then numbered n else []
      let hold : Bool := c = '\r' && o.ends && !o.marks
      let (t, l) := layOut o ⟨false, false, n, hold⟩ r
      (before ++ start ++ (if hold then [] else marked o c) ++ t, l)

def shown (o : Options) (l : Layout) (t : Text) : Text × Layout :=
  if o = Options.none then (t, l) else layOut o l t

/-! ### Names in messages -/

def isPlain (c : Char) : Bool := c.isAlphanum || "%+,-./]_@\x7b\x7d".toList.contains c

def isMild (c : Char) : Bool := c.isAlphanum || "%+,-./]_@ :'".toList.contains c

def isPrinted (c : Char) : Bool := ' ' ≤ c && c ≤ '~'

def escaped (c : Char) : Text :=
  match ([('\x07', 'a'), ('\x08', 'b'), ('\x0c', 'f'), ('\n', 'n'), ('\r', 'r'), ('\t', 't'),
      ('\x0b', 'v')].find? fun e => e.1 = c) with
  | some e => ['\\', e.2]
  | none =>
    let n := c.toNat
    ['\\', Char.ofNat (48 + n / 64), Char.ofNat (48 + n / 8 % 8), Char.ofNat (48 + n % 8)]

def enclosed : Bool → Text → Text
  | false, [] => ['\'']
  | true, [] => ['\'']
  | inEscape, c :: r =>
    if isPrinted c then
      (if c = '\'' then ['\'', '\\', '\'', '\'']
        else if inEscape then ['\'', '\'', c]
        else [c]) ++ enclosed false r
    else (if inEscape then [] else ['\'', '$', '\'']) ++ escaped c ++ enclosed true r

/-- A name as a shell would read it back. One with a single quote in it and at its end a character
that is not printed is taken as if quotes for such a character stood open at its start. -/
def quoted (t : Text) : Text :=
  let isBold : Bool := t.head?.any ['#', '~'].contains
  let special : Bool := t = [] || t = ['\x7b'] || t = ['\x7d'] || isBold ||
    t.any fun c => !(isPlain c || c = '#' || c = '~')
  if !special then t
  else if t.contains '\'' && (if isBold then t.tail else t).all isMild then '"' :: t ++ ['"']
  else
    let startsInEscape : Bool := t.contains '\'' && t.getLast?.any fun c => !isPrinted c
    '\'' :: enclosed startsInEscape t

end Triage.Cat
