import Triage.Text.Class

set_option autoImplicit false

namespace Triage.Text

/-- The value of a hexadecimal digit, zero for any other character. -/
def hexValue (c : Char) : Nat :=
  if isDigit c then c.toNat - 48
  else if 'a' ≤ c && c ≤ 'f' then c.toNat - 87
  else if 'A' ≤ c && c ≤ 'F' then c.toNat - 55
  else 0

def hexNumber (t : Text) : Nat := t.foldl (fun n c => 16 * n + hexValue c) 0

def hexDigit (upper : Bool) (n : Nat) : Char :=
  if n < 10 then Char.ofNat (48 + n) else Char.ofNat ((if upper then 55 else 87) + n)

def hexFour (upper : Bool) (n : Nat) : Text :=
  [hexDigit upper (n / 4096 % 16), hexDigit upper (n / 256 % 16), hexDigit upper (n / 16 % 16),
   hexDigit upper (n % 16)]

/-- The character with a code point, surrogates and larger numbers excepted. -/
def charOf? (n : Nat) : Option Char :=
  if n < 0xD800 ∨ (0xDFFF < n ∧ n < 0x110000) then some (Char.ofNat n) else none

end Triage.Text
