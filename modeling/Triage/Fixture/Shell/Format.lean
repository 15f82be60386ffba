import Triage.Fixture.Shell.Number

set_option autoImplicit false

namespace Triage.Shell

namespace Escape

def isOctal (c : Char) : Bool := '0' ≤ c && c ≤ '7'

def named? (c : Char) : Option Char :=
  ([('a', '\x07'), ('b', '\x08'), ('e', '\x1b'), ('f', '\x0c'), ('n', '\n'), ('r', '\r'),
    ('t', '\t'), ('v', '\x0b'), ('\\', '\\')].find? fun e => e.1 = c).map (·.2)

/-- What the text behind a backslash stands for, and what follows. Up to three octal digits name an
octet; where nothing is named the backslash stands for itself. -/
def take (t : Text) : Char × Text :=
  match t with
  | [] => ('\\', [])
  | c :: r =>
    if isOctal c then
      let ds := (t.take 3).takeWhile isOctal
      (Char.ofNat (ds.foldl (fun n d => 8 * n + (d.toNat - '0'.toNat)) 0 % 256), t.drop ds.length)
    else
      match named? c with
      | some d => (d, r)
      | none => ('\\', t)

/-- A text with its escapes, at most so many characters of it, and whether it stops all output.
Here a zero may stand before octal digits. -/
def expand : Nat → Text → Text × Bool
  | 0, _ => ([], false)
  | _ + 1, [] => ([], false)
  | n + 1, c :: r =>
    if c = '\\' then
      match r with
      | 'c' :: _ => ([], true)
      | _ =>
        let r := match r with
          | '0' :: d :: _ => if isOctal d then r.tail else r
          | _ => r
        let (d, r) := take r
        let (t, stopped) := expand n r
        (d :: t, stopped)
    else
      let (t, stopped) := expand n r
      (c :: t, stopped)

def text (t : Text) : Text × Bool := expand t.length t

end Escape

def echoed : List Text → Text × Bool
  | [] => ([], true)
  | [t] =>
    let (t, stopped) := Escape.text t
    (t, !stopped)
  | t :: u :: r =>
    let (t, stopped) := Escape.text t
    if stopped then (t, false)
    else
      let (rest, closed) := echoed (u :: r)
      (t ++ ' ' :: rest, closed)

def echo (args : List Text) : Text :=
  let bare := args.head? = some ['-', 'n']
  let (t, closed) := echoed (if bare then args.tail else args)
  if closed && !bare then t ++ ['\n'] else t

namespace Format

structure Directive where
  left : Bool
  plus : Bool
  blank : Bool
  sharp : Bool
  zero : Bool
  width : Nat
  precision : Option Nat
  deriving Repr

namespace Directive

def fill (d : Directive) (zeros : Bool) (sign digits : Text) : Text :=
  let missing := d.width - (sign.length + digits.length)
  if d.left then sign ++ digits ++ List.replicate missing ' '
  else if zeros then sign ++ List.replicate missing '0' ++ digits
  else List.replicate missing ' ' ++ sign ++ digits

def sign (d : Directive) (negative : Bool) : Text :=
  if negative then ['-'] else if d.plus then ['+'] else if d.blank then [' '] else []

def digits (d : Directive) (base : Nat) (n : Nat) : Text :=
  match d.precision with
  | none => Nat.toDigits base n
  | some 0 => if n = 0 then [] else Nat.toDigits base n
  | some p =>
    let ds := Nat.toDigits base n
    List.replicate (p - ds.length) '0' ++ ds

def zeros (d : Directive) : Bool := d.zero && d.precision.isNone

def signed (d : Directive) (n : Int) : Text :=
  d.fill d.zeros (d.sign (n < 0)) (d.digits 10 n.natAbs)

def unsigned (d : Directive) (c : Char) (n : Nat) : Text :=
  if c = 'o' then
    let ds := d.digits 8 n
    d.fill d.zeros [] (if d.sharp ∧ ds.head? ≠ some '0' then '0' :: ds else ds)
  else if c = 'u' then d.fill d.zeros [] (d.digits 10 n)
  else
    let start : Text := if d.sharp ∧ n ≠ 0 then ['0', c] else []
    d.fill d.zeros start ((d.digits 16 n).map fun x => if c = 'X' then x.toUpper else x)

def shown (d : Directive) (t : Text) : Text :=
  d.fill false [] (match d.precision with
    | some p => t.take p
    | none => t)

end Directive

structure Progress where
  output : Text
  args : List Text
  complaints : List Text

inductive Halt where
  | stopped
  | error (message : Text)
  deriving DecidableEq, Repr

abbrev Formatting := ExceptT Halt (StateM Progress)

def put (t : Text) : Formatting Unit := modify fun s => { s with output := s.output ++ t }

def complain (t : Text) : Formatting Unit :=
  modify fun s => { s with complaints := s.complaints ++ [t] }

def argument? : Formatting (Option Text) := do
  match (← get).args with
  | [] => return none
  | a :: r =>
    modify fun s => { s with args := r }
    return some a

def check (argument : Text) (rest : Option Text) (fits : Bool) : Formatting Unit :=
  match rest with
  | none => if argument = [] then return
    else complain (argument ++ ": expected numeric value".toList)
  | some [] => if fits then return
    else complain (argument ++ ": Numerical result out of range".toList)
  | some _ => complain (argument ++ ": not completely converted".toList)

def quotedCode? : Text → Option Nat
  | '\'' :: r | '"' :: r => some ((r.head?.map Char.toNat).getD 0)
  | _ => none

def integer (isSigned : Bool) : Formatting Int := do
  match ← argument? with
  | none => return 0
  | some a =>
    match quotedCode? a with
    | some n => return n
    | none =>
      match Number.take none a with
      | none =>
        check a none true
        return 0
      | some (negative, n, rest) =>
        let exact : Int := if negative then -n else n
        let value := if isSigned then Number.clamp negative n
          else if n < UInt64.size then exact % UInt64.size else UInt64.size - 1
        check a (some rest) (if isSigned then value = exact else n < UInt64.size)
        return value

def size (t : Text) : Formatting (Int × Text) := do
  match t with
  | '*' :: r => return ((← integer true).bmod UInt32.size, r)
  | _ =>
    let ds := t.takeWhile Char.isDigit
    return ((Number.takeDigits 10 0 ds).1, t.drop ds.length)

def emit (d : Directive) (shown : Unit → Text) : Formatting Unit :=
  if max d.width (d.precision.getD 0) < 0x7FFFFFFF then put (shown ())
  else throw (.error "xvsnprintf failed".toList)

def perform (d : Directive) (c : Char) (spelling : Text) : Formatting Unit := do
  if c = 's' then
    let a := (← argument?).getD []
    emit d fun _ => d.shown a
  else if c = 'b' then
    let (t, stopped) := Escape.text ((← argument?).getD [])
    emit d fun _ => d.shown t
    if stopped then throw .stopped
  else if c = 'c' then
    let a := ((← argument?).getD []).head?.getD '\x00'
    emit d fun _ => d.fill false [] [a]
  else if c = 'd' ∨ c = 'i' then
    let n ← integer true
    emit d fun _ => d.signed n
  else if ['o', 'u', 'x', 'X'].contains c then
    let n ← integer false
    emit d fun _ => d.unsigned c n.toNat
  else throw (.error ('%' :: spelling ++ ": invalid directive".toList))

def directive (t : Text) : Formatting Text := do
  let flags := t.takeWhile ['#', '-', '+', ' ', '0'].contains
  let (width, r) ← size (t.drop flags.length)
  let (precision, r) ← match r with
    | '.' :: r =>
      let (p, r) ← size r
      pure (if p < 0 then none else some p.toNat, r)
    | r => pure (none, r)
  match r with
  | [] => throw (.error "missing format character".toList)
  | c :: rest =>
    let d : Directive := ⟨flags.contains '-' || width < 0, flags.contains '+', flags.contains ' ',
      flags.contains '#', flags.contains '0', width.natAbs, precision⟩
    perform d c (t.take (t.length - rest.length))
    return rest

def pass : Nat → Text → Formatting Unit
  | 0, _ => return
  | _ + 1, [] => return
  | n + 1, '\\' :: r => do
    let (c, r) := Escape.take r
    put [c]
    pass n r
  | n + 1, '%' :: '%' :: r => do
    put ['%']
    pass n r
  | n + 1, '%' :: r => do pass n (← directive r)
  | n + 1, c :: r => do
    put [c]
    pass n r

def passes (format : Text) : Nat → Formatting Unit
  | 0 => return
  | n + 1 => do
    let before := (← get).args.length
    pass format.length format
    let after := (← get).args.length
    if after = 0 ∨ after = before then return else passes format n

def print (format : Text) (args : List Text) : Text × List Text × Option Text :=
  let (r, s) := (passes format (args.length + 1)).run ⟨[], args, []⟩
  (s.output, s.complaints, match r with
    | .error (.error m) => some m
    | _ => none)

end Format
end Triage.Shell
