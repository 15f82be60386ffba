import Triage.Text.Hex

set_option autoImplicit false

/-!
Text as bytes in UTF-8. Bytes are cut into characters and ill-formed parts, each part as long as it
could have begun a character; `strict` refuses such parts and `lossy` replaces them.
-/

namespace Triage

abbrev Bytes := List UInt8

namespace Utf8

def encode (t : Text) : Bytes := t.flatMap String.utf8EncodeChar

def continues (b : UInt8) : Bool := 0x80 ≤ b && b ≤ 0xBF

def takeTails : Nat → Nat → Bytes → Option Char × Bytes
  | 0, n, r => (Text.charOf? n, r)
  | _ + 1, _, [] => (none, [])
  | k + 1, n, b :: r =>
    if continues b then takeTails k (64 * n + (b.toNat - 0x80)) r else (none, b :: r)

def takeSecond (low high : UInt8) (k n : Nat) : Bytes → Option Char × Bytes
  | [] => (none, [])
  | b :: r =>
    if low ≤ b && b ≤ high then takeTails k (64 * n + (b.toNat - 0x80)) r else (none, b :: r)

/-- The character, or the ill-formed part, that a byte begins, and what follows. -/
def takeFrom (b : UInt8) (r : Bytes) : Option Char × Bytes :=
  let n := b.toNat
  if n < 0x80 then (Text.charOf? n, r)
  else if n < 0xC2 then (none, r)
  else if n < 0xE0 then takeSecond 0x80 0xBF 0 (n - 0xC0) r
  else if n = 0xE0 then takeSecond 0xA0 0xBF 1 0 r
  else if n = 0xED then takeSecond 0x80 0x9F 1 (n - 0xE0) r
  else if n < 0xF0 then takeSecond 0x80 0xBF 1 (n - 0xE0) r
  else if n = 0xF0 then takeSecond 0x90 0xBF 2 0 r
  else if n < 0xF4 then takeSecond 0x80 0xBF 2 (n - 0xF0) r
  else if n = 0xF4 then takeSecond 0x80 0x8F 2 (n - 0xF0) r
  else (none, r)

def cut : Nat → Bytes → List (Option Char)
  | 0, _ => []
  | _ + 1, [] => []
  | k + 1, b :: r =>
    let (c, r) := takeFrom b r
    c :: cut k r

def parts (bs : Bytes) : List (Option Char) := cut bs.length bs

def strict (bs : Bytes) : Option Text := (parts bs).mapM id

def lossy (bs : Bytes) : Text := (parts bs).map (·.getD '\uFFFD')

end Utf8
end Triage
