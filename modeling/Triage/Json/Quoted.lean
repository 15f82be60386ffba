import Triage.Json
import Triage.Text.Hex

set_option autoImplicit false

/-!
Texts inside JSON quotes. Writing escapes the quote, the backslash and the control characters below
U+0020 and nothing else; reading takes every escape of the grammar, a surrogate only as half of a
pair.
-/

namespace Triage.Json

def escapeChar (c : Char) : Text :=
  if c = '"' then ['\\', '"']
  else if c = '\\' then ['\\', '\\']
  else if c = '\n' then ['\\', 'n']
  else if c = '\r' then ['\\', 'r']
  else if c = '\t' then ['\\', 't']
  else if c = '\x08' then ['\\', 'b']
  else if c = '\x0c' then ['\\', 'f']
  else if c.toNat < 0x20 then '\\' :: 'u' :: Text.hexFour false c.toNat
  else [c]

def escape (t : Text) : Text := t.flatMap escapeChar

def plainEscape? (c : Char) : Option Char :=
  if c = '"' ∨ c = '\\' ∨ c = '/' then some c
  else if c = 'n' then some '\n'
  else if c = 'r' then some '\r'
  else if c = 't' then some '\t'
  else if c = 'b' then some '\x08'
  else if c = 'f' then some '\x0c'
  else none

def isHighSurrogate (n : Nat) : Bool := 0xD800 ≤ n && n ≤ 0xDBFF

def isLowSurrogate (n : Nat) : Bool := 0xDC00 ≤ n && n ≤ 0xDFFF

def unescape : Text → Option Text
  | [] => some []
  | '\\' :: 'u' :: a :: b :: c :: d :: r =>
    let n := Text.hexNumber [a, b, c, d]
    if isHighSurrogate n then
      match r with
      | '\\' :: 'u' :: e :: f :: g :: h :: r =>
        let m := Text.hexNumber [e, f, g, h]
        if isLowSurrogate m then
          (unescape r).map (Char.ofNat (0x10000 + (n - 0xD800) * 0x400 + (m - 0xDC00)) :: ·)
        else none
      | _ => none
    else if isLowSurrogate n then none
    else (unescape r).map (Char.ofNat n :: ·)
  | '\\' :: c :: r =>
    match plainEscape? c with
    | some d => (unescape r).map (d :: ·)
    | none => none
  | c :: r => (unescape r).map (c :: ·)

def ofText (t : Text) : Json := .string (escape t)

/-- Splits a text behind the spelling of a string and its closing quote. -/
def takeQuoted : Text → Option (Text × Text)
  | [] => none
  | '"' :: r => some ([], r)
  | '\\' :: 'u' :: a :: b :: c :: d :: r =>
    if [a, b, c, d].all Text.isHex then
      (takeQuoted r).map fun s => ('\\' :: 'u' :: a :: b :: c :: d :: s.1, s.2)
    else none
  | '\\' :: c :: r =>
    if (plainEscape? c).isSome then (takeQuoted r).map fun s => ('\\' :: c :: s.1, s.2) else none
  | c :: r => if c.toNat < 0x20 then none else (takeQuoted r).map fun s => (c :: s.1, s.2)

end Triage.Json
