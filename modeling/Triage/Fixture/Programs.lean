import Triage.Fixture.Shell.Evaluation

set_option autoImplicit false

/-!
The programs of a closed world: an attribute store that answers from a script, a shell, and a
program that joins files. They are launched by name, or by the path of their directory.
-/

namespace Triage.Programs
open Shell

/-- The program that a launch names. No other file can be run, and names are looked up in the
directory of the programs alone, where the directory and its parent are found as well. -/
def find (store : StoreScript) (tree : Tree) (l : Launch) : Except IoError Text :=
  let isProgram (name : Text) : Bool :=
    name = shellName || name = joinerName || (name = AttributeStore.program && store.isSome)
  if l.program.contains '/' then
    match tree.find (Text.under l.dir l.program) with
    | .ok place =>
      match programIn? place with
      | some name => .ok name
      | none => .error .permissionDenied
    | .error e => .error e
  else if l.program = Path.dot ∨ l.program = Path.up then .error .permissionDenied
  else if 255 < (Utf8.encode l.program).length then .error .nameTooLong
  else if isProgram l.program then .ok l.program
  else .error .notFound

def depth : Nat := 100000

def surroundings (store : StoreScript) (tree : Tree) (l : Launch) : State where
  shared :=
    { tree := tree
      channels := [.reading (Octets.ofText (l.input.getD [])), .writing, .writing]
      store := store
      launches := []
      signals := []
      nextProcess := firstProcess }
  streams := SortedMap.ofList [(0, 0), (1, 1), (2, 2)]
  dir := l.dir
  name := []
  builtin := none
  args := []
  environment := SortedMap.ofList [("PATH".toList, ⟨some programs, true, false⟩)]
  functions := .empty
  documents := []
  options := []
  traps := .empty
  pending := []
  status := 0
  statusBefore := none
  substituted := 0
  line := 0
  reached := 1
  process := 1
  lastBackground := none
  isCopy := false
  loops := 0
  calls := 0
  frames := []
  output := []

def written (s : State) (i : Nat) : Bytes :=
  match s.shared.channels[i]? with
  | some ⟨.pipe content, _, _, _⟩ => Octets.bytes content
  | _ => []

def start (store : StoreScript) (tree : Tree) (l : Launch) : Except IoError Ran := do
  let program ← find store tree l
  if program = AttributeStore.program then
    let r := StoreScript.reply (store.getD []) l.args
    return ⟨⟨some r.code, Utf8.encode r.out, Utf8.encode r.err⟩, tree, []⟩
  else
    let work := Run.runProgram (Run.evaluate depth) program (Octets.ofText l.program)
      (l.args.map Octets.ofText)
    let (r, s) := work.run (surroundings store tree l)
    let code := match r with
      | .ok (.exited n) => some n
      | _ => none
    return ⟨⟨code, written s 1, written s 2⟩, s.shared.tree, s.shared.launches⟩

end Triage.Programs
