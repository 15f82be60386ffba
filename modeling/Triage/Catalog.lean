import Triage.Catalog.Bundled

set_option autoImplicit false

namespace Triage

structure Catalog where
  seen : SortedMap Code Text
  table : MessageTable
  deriving DecidableEq

namespace Catalog

def empty : Catalog := ⟨.empty, .empty⟩

def headline (message : Text) : Text := Text.trim Text.isBlank (message.takeWhile (· ≠ '\n'))

def record (c : Catalog) (d : Diagnostic) : Catalog :=
  { c with seen := c.seen.insertNew d.code (headline d.message) }

def ofDiagnostics (ds : List Diagnostic) : Catalog := ds.foldl record empty

def withTable (c : Catalog) (t : MessageTable) : Catalog := { c with table := t }

def get? (c : Catalog) (code : Code) : Option Text :=
  c.seen.get? code <|> c.table.get? code <|> bundled.get? code

end Catalog
end Triage
