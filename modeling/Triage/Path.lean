import Triage.Text

set_option autoImplicit false

/-!
Slash-separated paths, handled by their spelling alone. A path is a root mark and a list of
segments; empty segments and `.` never enter the list. Files are known by the spelling that
`resolve` gives them, and `displayed` shortens such a spelling for a reader who stands in a
directory.
-/

namespace Triage

structure Path where
  rooted : Bool
  segments : List Text
  deriving DecidableEq, Repr

namespace Path

def dot : Text := ['.']
def up : Text := ['.', '.']

/-- Segments that name nothing are left out. -/
def parse (t : Text) : Path :=
  ⟨t.head? = some '/', (Text.split '/' t).filter fun s => s ≠ [] ∧ s ≠ dot⟩

def render (p : Path) : Text :=
  if p.rooted then '/' :: Text.join ['/'] p.segments else Text.join ['/'] p.segments

/-- Puts a segment on the stack of those before it, the nearest first. A step up takes the nearest
away; with nothing to take away it is kept. -/
def stack (before : List Text) (s : Text) : List Text :=
  if s = up then
    match before with
    | [] => [up]
    | _ :: r => r
  else s :: before

def fold (l : List Text) : List Text := (l.foldl stack []).reverse

def normal (p : Path) : Path := ⟨p.rooted, fold p.segments⟩

/-- The second path as seen from the first; a rooted one stands for itself. -/
def join (base p : Path) : Path :=
  if p.rooted then p else ⟨base.rooted, base.segments ++ p.segments⟩

def dropCommon : List Text → List Text → List Text × List Text
  | a :: r, b :: s => if a = b then dropCommon r s else (a :: r, b :: s)
  | r, s => (r, s)

/-- The way from a base to a target: up out of the one, down into the other. -/
def wayFrom (base target : List Text) : List Text :=
  let rest := dropCommon target base
  rest.2.map (fun _ => up) ++ rest.1

/-- Whole segments count. The empty relative path is a start of every path. -/
def startsWith (p root : Path) : Bool :=
  (!root.rooted && root.segments.isEmpty) ||
  (p.rooted == root.rooted && root.segments.isPrefixOf p.segments)

end Path

namespace Text

/-- A path text seen from a directory, both kept as they are spelled. -/
def under (dir t : Text) : Text :=
  if t.head? = some '/' ∨ dir = [] then t
  else if dir.getLast? = some '/' then dir ++ t
  else dir ++ '/' :: t

end Text

def normalized (t : Text) : Text := (Path.parse t).normal.render

/-- The spelling under which a file is known: seen from a base, steps up folded. -/
def resolve (base t : Text) : Text := ((Path.parse base).join (Path.parse t)).normal.render

/-- A path as shown to a reader in the base directory. A relative path, or any path where the base
is relative, is shown as it is. -/
def displayed (base t : Text) : Text :=
  let target := (Path.parse t).normal
  let origin := (Path.parse base).normal
  if target.rooted && origin.rooted then
    match Path.wayFrom origin.segments target.segments with
    | [] => Path.dot
    | way => Text.join ['/'] way
  else t

def isWithin (root t : Text) : Bool := (Path.parse t).normal.startsWith (Path.parse root).normal

end Triage
