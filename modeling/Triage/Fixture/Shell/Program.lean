import Triage.AttributeStore
import Triage.Fixture.Cat
import Triage.Fixture.Shell.Redirection

set_option autoImplicit false

namespace Triage.Shell

def programs : Text := "/usr/bin".toList

def programsToo : Text := "/bin".toList

def shellName : Text := "sh".toList

def joinerName : Text := "cat".toList

def programIn? (place : List Text) : Option Text :=
  [shellName, joinerName].find? fun name =>
    place = ["usr".toList, "bin".toList, name] ∨ place = ["bin".toList, name]

structure Missing where
  reason : Text
  status : Nat

namespace Run

def notFound : Missing := ⟨"not found".toList, 127⟩

def denied (status : Nat) : Missing := ⟨"Permission denied".toList, status⟩

def isProgram (s : State) (name : Text) : Bool :=
  name = shellName || name = joinerName ||
    (name = AttributeStore.program && s.shared.store.isSome)

def programAt (s : State) (name : Text) : Except Missing Text :=
  match s.shared.tree.find (Text.under s.dir (Octets.text name)) with
  | .ok place =>
    match programIn? place with
    | some program => .ok program
    | none => .error (denied 126)
  | .error .nameTooLong => .error ⟨"File name too long".toList, 127⟩
  | .error _ => .error notFound

def findProgram (name : Text) : Run (Except Missing Text) := do
  let s ← get
  if name.contains '/' then return programAt s name
  let dirs := match ← valueOf? "PATH".toList with
    | some p => Text.split ':' p
    | none => []
  let inReach : Bool := dirs.contains programs || dirs.contains programsToo
  if !inReach then return .error notFound
  else if name = [] ∨ name = Path.dot ∨ name = Path.up then return .error (denied 127)
  else if 255 < name.length then return .error ⟨"File name too long".toList, 127⟩
  else return if isProgram s name then .ok name else .error notFound

def tellMissing (name : Text) (m : Missing) : Run Unit := do
  warn (name ++ ": ".toList ++ m.reason)
  setStatus m.status

def runStore (args : List Text) : Run Ending := do
  let s ← get
  let asks : Bool := args.head? = some "check-attr".toList
  let input ← if asks then readInput else pure (.ok [])
  let texts := args.map Octets.text
  let launch : Launch := ⟨AttributeStore.program, texts, s.dir,
    if asks then some (Octets.text (input.toOption.getD [])) else none⟩
  modify fun s => { s with shared := { s.shared with launches := s.shared.launches ++ [launch] } }
  let r := StoreScript.reply (s.shared.store.getD []) texts
  let _ ← write 1 (Octets.ofText r.out)
  let _ ← write 2 (Octets.ofText r.err)
  return .exited r.code

def placeOf (i : Nat) : Run (Option (List Text)) := do
  match (← get).shared.channels[i]? with
  | some ⟨.file place _, _, _, _⟩ => return some place
  | _ => return none

def feedsItself (i : Nat) : Run Bool := do
  let source ← placeOf i
  let target ← match (← get).streams.get? 1 with
    | some j => placeOf j
    | none => pure none
  let ahead := (← ahead i).toOption.getD []
  return source.isSome && source = target && !ahead.isEmpty

def contentOf (name : Text) : Run (Except Text Text) := do
  let opened ← if name = ['-'] then
      match (← get).streams.get? 0 with
      | some i => pure (Except.ok i)
      | none => pure (.error "Bad file descriptor".toList)
    else
      match ← openFile .input name with
      | .ok i => pure (.ok i)
      | .error e => pure (.error (reasonText e))
  match opened with
  | .error e => return .error e
  | .ok i =>
    if ← feedsItself i then return .error "input file is output file".toList
    match ← readFrom i with
    | .ok t => return .ok t
    | .error .isDirectory => return .error "Is a directory".toList
    | .error .notOpen => return .error "Bad file descriptor".toList

inductive Joined where
  | all
  | some
  | broken
  deriving DecidableEq, Repr

def joinFiles (o : Cat.Options) (name : Text) : Cat.Layout → List Text → Run Joined
  | l, [] => do
    if l.held then
      let _ ← write 1 ['\r']
    return .all
  | l, f :: fs => do
    match ← contentOf f with
    | .error what =>
      let _ ← write 2 (name ++ ": ".toList ++ Cat.quoted f ++ ": ".toList ++ what ++ ['\n'])
      return match ← joinFiles o name l fs with
        | .all => .some
        | j => j
    | .ok t =>
      let (shown, l) := Cat.shown o l t
      if (← write 1 shown) ∨ shown = [] then joinFiles o name l fs
      else
        let _ ← write 2 (name ++ ": write error: Bad file descriptor\n".toList)
        return .broken

def runCat (name : Text) (args : List Text) : Run Ending := do
  match Cat.parse .none args with
  | .error .about => return .exited 0
  | .error (.wrong e) =>
    let _ ← write 2 (name ++ ": ".toList ++ e ++ "\nTry '".toList ++ name ++
      " --help' for more information.\n".toList)
    return .exited 1
  | .ok (o, files) =>
    let complain (what : String) : Run Ending := do
      let _ ← write 2 (name ++ ": ".toList ++ what.toList ++ ": Bad file descriptor\n".toList)
      return .exited 1
    if !(← get).streams.contains 1 then complain "standard output"
    else
      let files := if files = [] then [['-']] else files
      match ← joinFiles o name .start files with
      | .broken => return .exited 1
      | j =>
        if files.contains ['-'] ∧ !(← get).streams.contains 0 then
          complain "closing standard input"
        else return .exited (if j = .all then 0 else 1)

end Run
end Triage.Shell
