import Triage.Fixture.Octets
import Triage.World
import Triage.Fixture.Store
import Triage.Fixture.Shell.Grammar

set_option autoImplicit false

/-!
What a running shell knows: its variables, functions and options, its streams, and what it shares
with every program that it starts. A command is a change of this state that may end early.
-/

namespace Triage.Shell

inductive Target where
  | pipe (content : Text)
  | file (place : List Text) (position : Nat)
  | directory
  | nowhere

structure Channel where
  target : Target
  readable : Bool
  writable : Bool
  appends : Bool

namespace Channel

def reading (content : Text) : Channel := ⟨.pipe content, true, false, false⟩
def writing : Channel := ⟨.pipe [], false, true, false⟩

end Channel

structure Variable where
  value : Option Text
  exported : Bool
  fixed : Bool

abbrev Variables := SortedMap Text Variable

structure Frame where
  environment : List (Text × Option Variable)
  options : Option (List Char)

def firstProcess : Nat := 1000

structure Shared where
  tree : Tree
  channels : List Channel
  store : StoreScript
  launches : List Launch
  signals : List (Nat × Nat)
  nextProcess : Nat

structure State where
  shared : Shared
  streams : SortedMap Nat Nat
  dir : Text
  name : Text
  builtin : Option Text
  args : List Text
  environment : Variables
  functions : SortedMap Text Command
  documents : List (Nat × Word)
  options : List Char
  traps : SortedMap Nat Text
  pending : List Nat
  status : Nat
  statusBefore : Option Nat
  substituted : Nat
  line : Nat
  reached : Nat
  process : Nat
  lastBackground : Option Nat
  isCopy : Bool
  loops : Nat
  calls : Nat
  frames : List Frame
  output : Text

inductive Jump where
  | exit
  | error
  | killed (signal : Nat)
  | leave (loops : Nat) (goesOn : Bool)
  | return
  | gone
  deriving DecidableEq, Repr

abbrev Run := ExceptT Jump (StateM State)

namespace Run

def setStatus (n : Nat) : Run Unit := modify fun s => { s with status := n }

def hasOption (c : Char) : Run Bool := do return (← get).options.contains c

/-! ### Streams -/

def setChannel (i : Nat) (c : Channel) : Run Unit := modify fun s =>
  { s with shared := { s.shared with channels := s.shared.channels.set i c } }

def addChannel (c : Channel) : Run Nat := do
  let s ← get
  set { s with shared := { s.shared with channels := s.shared.channels ++ [c] } }
  return s.shared.channels.length

def setStream (stream channel : Nat) : Run Unit := modify fun s =>
  { s with streams := s.streams.insert stream channel }

def closeStream (stream : Nat) : Run Unit := modify fun s =>
  { s with streams := s.streams.erase stream }

def fileAt (place : List Text) : Run Text := do
  match (← get).shared.tree.node? place with
  | some (.file content) => return Octets.ofBytes content
  | _ => return []

def setFile (place : List Text) (content : Text) : Run Unit := modify fun s =>
  let tree := s.shared.tree.insert place (.file (Octets.bytes content))
  { s with shared := { s.shared with tree := tree } }

def overwrite (content : Text) (position : Nat) (t : Text) : Text :=
  content.take position ++ List.replicate (position - content.length) '\x00' ++ t ++
    content.drop (position + t.length)

def writeTo (i : Nat) (t : Text) : Run Bool := do
  match (← get).shared.channels[i]? with
  | none => return false
  | some c =>
    if !c.writable then return false
    match c.target with
    | .pipe content =>
      setChannel i { c with target := .pipe (content ++ t) }
      return true
    | .file place position =>
      if t = [] then return true
      let content ← fileAt place
      let position := if c.appends then content.length else position
      setFile place (overwrite content position t)
      setChannel i { c with target := .file place (position + t.length) }
      return true
    | .directory => return false
    | .nowhere => return true

def write (stream : Nat) (t : Text) : Run Bool := do
  match (← get).streams.get? stream with
  | none => return false
  | some i => writeTo i t

inductive ReadError where
  | notOpen | isDirectory
  deriving DecidableEq, Repr

def ahead (i : Nat) : Run (Except ReadError Text) := do
  match (← get).shared.channels[i]? with
  | none => return .error .notOpen
  | some c =>
    if !c.readable then return .error .notOpen
    match c.target with
    | .pipe content => return .ok content
    | .file place position => return .ok ((← fileAt place).drop position)
    | .directory => return .error .isDirectory
    | .nowhere => return .ok []

def consume (i count : Nat) : Run Unit := do
  match (← get).shared.channels[i]? with
  | none => return
  | some c =>
    match c.target with
    | .pipe content => setChannel i { c with target := .pipe (content.drop count) }
    | .file place position => setChannel i { c with target := .file place (position + count) }
    | _ => return

def readFrom (i : Nat) : Run (Except ReadError Text) := do
  let r ← ahead i
  match r with
  | .ok t => consume i t.length
  | .error _ => pure ()
  return r

def readInput : Run (Except ReadError Text) := do
  match (← get).streams.get? 0 with
  | some i => readFrom i
  | none => return .error .notOpen

/-! ### Messages -/

def origin (s : State) (line : Nat) : Text :=
  s.name ++ ": ".toList ++ Text.ofNat line ++ ": ".toList ++
    match s.builtin with
    | some c => c ++ ": ".toList
    | none => []

def warnAt (line : Nat) (message : Text) : Run Unit := do
  let _ ← write 2 (origin (← get) line ++ message ++ ['\n'])

def warn (message : Text) : Run Unit := do warnAt (← get).line message

def failAt {α : Type} (line : Nat) (message : Text) : Run α := do
  warnAt line message
  setStatus 2
  throw .error

def fail {α : Type} (message : Text) : Run α := do failAt (← get).line message

def put (t : Text) : Run Unit := modify fun s => { s with output := s.output ++ t }

def flush : Run Bool := do
  let t := (← get).output
  modify fun s => { s with output := [] }
  if t = [] then return true else write 1 t

/-! ### Variables -/

def blanks : Text := [' ', '\t', '\n']

def valueOf? (name : Text) : Run (Option Text) := do
  return ((← get).environment.get? name).bind (·.value)

def separators : Run Text := do return (← valueOf? "IFS".toList).getD blanks

def alterVariable (name : Text) (f : Variable → Variable) : Run Unit := do
  let v := ((← get).environment.get? name).getD ⟨none, false, false⟩
  modify fun s => { s with environment := s.environment.insert name (f v) }

def isFixed (name : Text) : Run Bool := do
  return ((← get).environment.get? name).any (·.fixed)

def setVariable (name value : Text) : Run Unit := do
  if ← isFixed name then fail (name ++ ": is read only".toList)
  let all ← hasOption 'a'
  alterVariable name fun v => { v with value := some value, exported := v.exported || all }

def exportVariable (name : Text) : Run Unit :=
  alterVariable name fun v => { v with exported := true }

def makeLocal (name : Text) : Run Unit := modify fun s =>
  match s.frames with
  | [] => s
  | f :: r =>
    if f.environment.any fun e => e.1 = name then s
    else
      let kept := (name, s.environment.get? name) :: f.environment
      { s with frames := { f with environment := kept } :: r }

def makeOptionsLocal : Run Unit := modify fun s =>
  match s.frames with
  | [] => s
  | f :: r => { s with frames := { f with options := some (f.options.getD s.options) } :: r }

def putBack (vs : Variables) (e : Text × Option Variable) : Variables :=
  match e.2 with
  | some v => vs.insert e.1 v
  | none => vs.erase e.1

def afterwards {α : Type} (x : Run α) (last : Run Unit) : Run α := do
  try
    let a ← x
    last
    return a
  catch j =>
    last
    throw j

def inFrame {α : Type} (x : Run α) : Run α := do
  modify fun s => { s with frames := ⟨[], none⟩ :: s.frames }
  afterwards x <| modify fun s =>
    match s.frames with
    | [] => s
    | f :: r => { s with
        frames := r
        environment := f.environment.foldl putBack s.environment
        options := f.options.getD s.options }

def withStreams {α : Type} (x : Run α) : Run α := do
  let before := (← get).streams
  afterwards x <| modify fun s => { s with streams := before }

/-! ### Signals -/

def isHarmless (signal : Nat) : Bool := [17, 18, 19, 20, 21, 22, 23, 28].contains signal

def deliver (signal : Nat) : Run Unit := do
  let s ← get
  match if signal = 9 then none else s.traps.get? signal with
  | some [] => return
  | some _ => set { s with pending := s.pending ++ [signal] }
  | none => if isHarmless signal then return else throw (.killed signal)

def receive : Run Unit := do
  let s ← get
  if s.isCopy then return
  let (own, others) := s.shared.signals.partition fun e => e.1 = s.process
  set { s with shared := { s.shared with signals := others } }
  own.forM fun e => deliver e.2

inductive Ending where
  | exited (status : Nat)
  | killed (signal : Nat)
  deriving DecidableEq, Repr

def apart (change : State → State) (x : Run Unit) : Run Ending := do
  let s ← get
  let (r, t) := x.run (change s)
  set { s with shared := t.shared }
  receive
  return match r with
    | .error (.killed n) => .killed n
    | _ => .exited t.status

def asCopy (s : State) : State :=
  { s with
    isCopy := true
    reached := 1
    output := []
    traps := s.traps.filter fun _ action => action = [] }

def signalText (signal : Nat) : Text :=
  if signal = 1 then "Hangup".toList
  else if signal = 3 then "Quit".toList
  else if signal = 6 then "Aborted".toList
  else if signal = 9 then "Killed".toList
  else if signal = 10 then "User defined signal 1".toList
  else if signal = 12 then "User defined signal 2".toList
  else if signal = 14 then "Alarm clock".toList
  else if signal = 15 then "Terminated".toList
  else "Signal ".toList ++ Text.ofNat signal

def statusOf : Ending → Run Nat
  | .exited n => return n
  | .killed n => do
    if n ≠ 2 ∧ n ≠ 13 then
      let _ ← write 2 (signalText n ++ ['\n'])
    return 128 + n

end Run
end Triage.Shell
