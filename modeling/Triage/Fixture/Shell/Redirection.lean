import Triage.Fixture.Shell.Expansion

set_option autoImplicit false

namespace Triage.Shell

inductive Redirected where
  | file (stream : Nat) (opening : Opening) (name : Text)
  | duplicate (stream : Nat) (source : Option Nat)
  | text (stream : Nat) (content : Text)
  deriving DecidableEq, Repr

def Redirected.stream : Redirected → Nat
  | .file n _ _ | .duplicate n _ | .text n _ => n

inductive Device where
  | nowhere
  | stream (n : Nat)
  deriving DecidableEq, Repr

namespace Device

def ofPath (path : Text) : Option Device :=
  if path = "/dev/null".toList then some .nowhere
  else if path = "/dev/stdin".toList then some (.stream 0)
  else if path = "/dev/stdout".toList then some (.stream 1)
  else if path = "/dev/stderr".toList then some (.stream 2)
  else ((Text.after? "/dev/fd/".toList path).bind Text.toNat?).map .stream

end Device

namespace Run

/-- Opens a file and gives the number of its channel. A file that is written to comes into being if
its directory is there. -/
def openFile (opening : Opening) (name : Text) : Run (Except IoError Nat) := do
  let p ← path name
  let s ← get
  match Device.ofPath p with
  | some .nowhere => return .ok (← addChannel ⟨.nowhere, true, true, false⟩)
  | some (.stream n) =>
    match s.streams.get? n with
    | some i => return .ok i
    | none => return .error .notFound
  | none =>
    let tree := s.shared.tree
    match opening with
    | .input =>
      match tree.find p with
      | .error e => return .error e
      | .ok place =>
        let target := if (tree.node? place).any (· = .directory) then Target.directory
          else .file place 0
        return .ok (← addChannel ⟨target, true, false, false⟩)
    | _ =>
      let before : Bytes := match opening with
        | .output _ => []
        | _ => (tree.read p).toOption.getD []
      match tree.write p before with
      | .error e => return .error e
      | .ok tree =>
        match tree.find p with
        | .error e => return .error e
        | .ok place =>
          set { s with shared := { s.shared with tree := tree } }
          let both : Bool := opening = .both
          let appends : Bool := opening = .append
          return .ok (← addChannel ⟨.file place 0, both, true, appends⟩)

def reasonText (e : IoError) : Text := Text.trimEnd (· = ' ') (e.message.takeWhile (· ≠ '('))

def reason (missing : Text) : IoError → Text
  | .notFound | .notADirectory => missing
  | e => reasonText e

def expandRedirect (script : Command → Run Text) (r : Redirect) : Run Redirected := do
  match r with
  | .file stream opening w => return .file stream opening (← textOfWord script w)
  | .duplicate stream w =>
    match ← textOfWord script w with
    | ['-'] => return .duplicate stream none
    | t =>
      match t.length, Text.toNat? t with
      | 1, some source => return .duplicate stream (some source)
      | _, _ => failAt (← get).reached "Syntax error: Bad fd number".toList
  | .document stream number =>
    match (← get).documents.find? fun d => d.1 = number with
    | some (_, w) => return .text stream (Cell.text (← cellsOfWord script false false w))
    | none => return .text stream []

def apply (r : Redirected) : Run Unit := do
  match r with
  | .text stream t => setStream stream (← addChannel (.reading t))
  | .duplicate stream none => closeStream stream
  | .duplicate stream (some n) =>
    if stream = n then return
    match (← get).streams.get? n with
    | some i => setStream stream i
    | none => fail (Text.ofNat n ++ ": Bad file descriptor".toList)
  | .file stream opening name =>
    let writes : Bool := opening ≠ .input
    let isThere := (← place? name).toOption.bind (← get).shared.tree.node?
    let kept : Bool := opening = .output false && (← hasOption 'C') &&
      isThere.any (· ≠ .directory) && (Device.ofPath (← path name)).isNone
    if kept then fail ("cannot create ".toList ++ name ++ ": File exists".toList)
    match ← openFile opening name with
    | .ok i => setStream stream i
    | .error e =>
      if writes then
        fail ("cannot create ".toList ++ name ++ ": ".toList ++
          reason "Directory nonexistent".toList e)
      else fail ("cannot open ".toList ++ name ++ ": ".toList ++ reason "No such file".toList e)

/-- Sends streams where they are wanted, to put them back later. A stream is put away when it is
first sent elsewhere, and messages that would go there just then are lost. -/
def applyKeeping : List Nat → List Redirected → Run Unit
  | _, [] => return
  | kept, r :: rs => do
    match r with
    | .duplicate stream (some source) =>
      if stream ≠ source ∧ !kept.contains stream then closeStream stream
    | _ => pure ()
    apply r
    applyKeeping (r.stream :: kept) rs

def applyAll (rs : List Redirected) : Run Bool := do
  try
    applyKeeping [] rs
    return true
  catch
    | .error => return false
    | j => throw j

end Run
end Triage.Shell
