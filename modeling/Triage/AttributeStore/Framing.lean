import Triage.Rule.Attribute

set_option autoImplicit false

namespace Triage

structure AttributeRecord where
  path : Text
  name : Text
  value : Text
  deriving DecidableEq, Repr

namespace Framing

def nul : Char := '\x00'

def field (t : Text) : Text := t ++ [nul]

def request (paths : List Text) : Text := paths.flatMap field

def answer (rs : List AttributeRecord) : Text :=
  rs.flatMap fun r => field r.path ++ field r.name ++ field r.value

/-- Fields in threes. A rest of fewer than three is dropped. -/
def threes : List Text → List AttributeRecord
  | path :: name :: value :: r => ⟨path, name, value⟩ :: threes r
  | _ => []

def records (t : Text) : List AttributeRecord := threes (Text.split nul t)

end Framing

namespace Attributes

def takeIn (a : Attributes) (r : AttributeRecord) : Attributes :=
  if r.path = [] then a else a.put r.path r.name r.value

/-- The last record on an attribute of a file counts. -/
def ofRecords (rs : List AttributeRecord) : Attributes := rs.foldl takeIn .empty

def ofAnswer (t : Text) : Attributes := ofRecords (Framing.records t)

end Attributes
end Triage
