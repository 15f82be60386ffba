import Triage.Text.Utf8

set_option autoImplicit false

namespace Triage.Octets

def ofByte (b : UInt8) : Char := Char.ofNat b.toNat

def ofBytes (bs : Bytes) : Text := bs.map ofByte

def bytes (t : Text) : Bytes := t.map fun c => UInt8.ofNat c.toNat

def ofText (t : Text) : Text := ofBytes (Utf8.encode t)

def text (t : Text) : Text := Utf8.lossy (bytes t)

end Triage.Octets
