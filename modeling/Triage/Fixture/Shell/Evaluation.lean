import Triage.Fixture.Shell.Builtin
import Triage.Fixture.Shell.Program

set_option autoImplicit false

namespace Triage.Shell

structure Mode where
  tested : Bool
  final : Bool

abbrev Inner := Mode → Command → Run Unit

namespace Mode

def plain : Mode := ⟨false, false⟩
def last : Mode := ⟨false, true⟩
def condition : Mode := ⟨true, false⟩

def going (m : Mode) : Mode := ⟨m.tested, false⟩

end Mode

namespace Command

def isNothing : Command → Bool
  | .nothing => true
  | _ => false

def isChecked : Command → Bool
  | .simple _ _ _ _ | .subshell _ _ _ | .pipe _ | .background _ => true
  | _ => false

end Command

namespace Run
variable (inner : Inner)

/-! ### Scripts -/

def runSource (mode : Mode) : Nat → Bool → Source → Run Unit
  | 0, _, _ => return
  | n + 1, ran, source => do
    let s ← get
    match Reading.takeLine.run { source with documents := s.documents } with
    | .error f =>
      warnAt f.line ("Syntax error: ".toList ++ f.message)
      setStatus 2
      throw .error
    | .ok ((c, isLast), source) =>
      modify fun s => { s with documents := source.documents, reached := source.line }
      if !c.isNothing then inner { mode with final := mode.final && isLast } c
      let ran := ran || !c.isNothing
      if !isLast then runSource mode n ran source
      else if !ran then setStatus 0

def runText (mode : Mode) (t : Text) : Run Unit := do
  let t := t.filter (· ≠ '\x00')
  let reached := (← get).reached
  afterwards (runSource inner mode (t.length + 2) false (Source.ofText t)) <|
    modify fun s => { s with reached := reached }

def settle : Run Unit := do
  let s ← get
  if s.pending.isEmpty then return
  set { s with pending := [] }
  for signal in s.pending do
    match (← get).traps.get? signal with
    | none => pure ()
    | some action =>
      let status := (← get).status
      modify fun s => { s with statusBefore := some status }
      runText inner .plain action
      modify fun s => { s with statusBefore := none, status := status }

def runLast : Run Unit := do
  let s ← get
  match s.traps.get? 0 with
  | none => return
  | some action =>
    set { s with traps := s.traps.erase 0, statusBefore := some s.status, loops := 0 }
    try
      runText inner .plain action
      setStatus s.status
    catch
      | .exit | .error => return
      | .killed n => throw (.killed n)
      | .gone => throw .gone
      | _ => setStatus s.status

def asShell (x : Run Unit) : Run Unit := do
  try
    x
  catch
    | .killed n => throw (.killed n)
    | .gone => return
    | _ => pure ()
  try
    runLast inner
  catch
    | .killed n => throw (.killed n)
    | _ => return

def seen : Ending → Ending
  | .exited n => .exited (n % 256)
  | e => e

def inCopy (x : Run Unit) : Run Ending := do
  return seen (← apart asCopy (asShell inner x))

def outputOf (c : Command) : Run Text := do
  if c.isNothing then return []
  let i ← addChannel .writing
  let ending ← inCopy inner do
    setStream 1 i
    inner .last c
  let status ← statusOf ending
  modify fun s => { s with substituted := status }
  match (← get).shared.channels[i]? with
  | some ⟨.pipe content, _, _, _⟩ => return content
  | _ => return []

/-! ### Other programs -/

def standard (parent : Nat) (dir : Text) : List (Text × Variable) :=
  [("IFS".toList, ⟨some blanks, false, false⟩), ("OPTIND".toList, ⟨some ['1'], false, false⟩),
   ("PPID".toList, ⟨some (Text.ofNat parent), false, false⟩),
   ("PWD".toList, ⟨some dir, true, false⟩)]

def prompts : List (Text × Text) :=
  [("PS1".toList, "# ".toList), ("PS2".toList, "> ".toList), ("PS4".toList, "+ ".toList)]

def fresh (s : State) : State :=
  let exported := s.environment.filter fun _ v => v.exported
  let withPrompts := prompts.foldl
    (fun vs e => vs.insertNew e.1 ⟨some e.2, false, false⟩) exported
  { s with
    shared := { s.shared with nextProcess := s.shared.nextProcess + 1 }
    name := "sh".toList
    builtin := none
    args := []
    environment := (standard s.process (Octets.ofText s.dir)).foldl
      (fun vs e => vs.insert e.1 e.2) withPrompts
    functions := .empty
    options := []
    traps := s.traps.filter fun n action => n ≠ 0 && action = []
    pending := []
    status := 0
    statusBefore := none
    substituted := 0
    line := 0
    reached := 1
    process := s.shared.nextProcess
    lastBackground := none
    isCopy := false
    loops := 0
    calls := 0
    frames := []
    output := [] }

def runShell (args : List Text) : Run Unit := do
  let p ← Builtin.takeOptions true args
  let fromInput : Run Unit := do
    let t ← readInput
    runText inner .plain (t.toOption.getD [])
  if p.script then
    match p.rest with
    | [] => fail "-c requires an argument".toList
    | script :: rest =>
      modify fun s => { s with name := rest.head?.getD s.name, args := rest.tail, line := 1 }
      if ← hasOption 's' then
        runText inner .plain script
        fromInput
      else runText inner .last script
  else if (← hasOption 's') ∨ p.rest = [] then
    modify fun s => { s with args := p.rest, options := 's' :: s.options.filter (· ≠ 's') }
    fromInput
  else
    let file := p.rest.head?.getD []
    match ← openFile .input file with
    | .error e => fail ("cannot open ".toList ++ file ++ ": ".toList ++
        reason "No such file".toList e)
    | .ok i =>
      let t ← readFrom i
      modify fun s => { s with name := file, args := p.rest.tail }
      runText inner .plain (t.toOption.getD [])

def runProgram (program name : Text) (args : List Text) : Run Ending := do
  if program = joinerName then runCat name args
  else if program = shellName then
    let change (s : State) : State := { fresh s with name := name }
    return seen (← apart change (asShell inner (runShell inner args)))
  else runStore args

/-! ### Builtin commands that run others -/

def describe (long : Bool) (name : Text) : Run Nat := do
  let s ← get
  let tell (short what : Text) : Run Nat := do
    put ((if long then name ++ what else short) ++ ['\n'])
    return 0
  if Reading.keywords.contains name then tell name " is a shell keyword".toList
  else if s.functions.contains name then tell name " is a shell function".toList
  else if specialCommands.contains name then tell name " is a special shell builtin".toList
  else if Builtin.isBuiltin name then tell name " is a shell builtin".toList
  else
    match ← findProgram name with
    | .ok program =>
      let p := if name.contains '/' then name else programs ++ '/' :: program
      tell p (" is ".toList ++ p)
    | .error m =>
      if m.status = 126 then tell name (" is ".toList ++ name)
      else
        if long then put (name ++ ": not found\n".toList)
        return 127

def type (args : List Text) : Run Nat := do
  let mut status := 0
  for name in args do
    let n ← describe true name
    if n ≠ 0 then status := n
  return status

def commandOptions (args : List Text) : Run Nat := do
  let (os, names) ← Builtin.optionsOf "pvV" args
  match names.head?, os.getLast? with
  | some name, some (c, _) => describe (c = 'V') name
  | _, _ => return 0

def dot (args : List Text) : Run Nat := do
  let (_, args) ← Builtin.optionsOf "" args
  match args with
  | [] => return 0
  | file :: _ =>
    if !file.contains '/' then fail (file ++ ": not found".toList)
    match ← openFile .input file with
    | .error e => fail ("cannot open ".toList ++ file ++ ": ".toList ++
        reason "No such file".toList e)
    | .ok i =>
      let t ← readFrom i
      modify fun s => { s with builtin := some file }
      try
        runText inner .plain (t.toOption.getD [])
      catch
        | .return => pure ()
        | j => throw j
      return (← get).status

def exec (args : List Text) : Run Nat := do
  match args with
  | [] => return 0
  | name :: args =>
    match ← findProgram name with
    | .error m =>
      tellMissing name m
      throw .exit
    | .ok program =>
      match ← runProgram inner program name args with
      | .killed n => throw (.killed n)
      | .exited n =>
        setStatus n
        throw .gone

def leave (goesOn : Bool) (args : List Text) : Run Nat := do
  let n ← match args.head? with
    | none => pure 1
    | some t => do
      let n ← Builtin.number t
      if n = 0 then fail ("Illegal number: ".toList ++ t)
      pure n
  let loops := (← get).loops
  if loops = 0 then return 0
  setStatus 0
  throw (.leave (min n loops) goesOn)

def exit (args : List Text) : Run Nat := do
  let s ← get
  match args.head? with
  | some t => setStatus (← Builtin.number t)
  | none => setStatus (s.statusBefore.getD s.status)
  throw .exit

def return_ (args : List Text) : Run Nat := do
  match args.head? with
  | some t => setStatus (← Builtin.number t)
  | none => pure ()
  throw .return

def eval (mode : Mode) (args : List Text) : Run Nat := do
  runText inner mode.going (Text.join [' '] args)
  return (← get).status

def builtin (mode : Mode) (name : Text) (args : List Text) : Run Nat :=
  match String.ofList name with
  | "." => dot inner args
  | "eval" => eval inner mode args
  | "exec" => exec inner args
  | "exit" => exit args
  | "return" => return_ args
  | "break" => leave false args
  | "continue" => leave true args
  | "command" => commandOptions args
  | "type" => type args
  | n =>
    match Builtin.plain.find? fun e => e.1 = n with
    | some (_, f) => f args
    | none => return 127

/-! ### Simple commands -/

inductive Callee where
  | nothing
  | builtin (special : Bool)
  | function (body : Command)
  | program

def behindCommand : List Text → Option (List Text)
  | [] => none
  | a :: r =>
    match a with
    | ['-', '-'] => if r = [] then none else some r
    | '-' :: c :: t => if (c :: t).all (· = 'p') then behindCommand r else none
    | _ => some (a :: r)

/-- What fields call, and those of them that are passed on. A command builtin passes over functions,
and nothing behind it is special. -/
def callee (s : State) : Nat → Bool → List Text → Callee × List Text
  | 0, _, args => (.program, args)
  | _, _, [] => (.nothing, [])
  | n + 1, direct, name :: args =>
    match if direct then s.functions.get? name else none with
    | some body => (.function body, name :: args)
    | none =>
      if name = "command".toList then
        match behindCommand args with
        | some args => callee s n false args
        | none => (.builtin false, name :: args)
      else if Builtin.isBuiltin name then
        (.builtin (direct && specialCommands.contains name), name :: args)
      else (.program, name :: args)

def fieldsOf : List Word → Run (List Text)
  | [] => return []
  | w :: r => do
    let script := outputOf inner
    match ← fieldsOfWord script w with
    | [] => fieldsOf r
    | name :: more =>
      let declares : Bool := ["export", "readonly", "local"].any fun n => n.toList = name
      let fs := name :: more
      if declares then
        let rest ← r.mapM fun w => do
          match Word.assignment? w with
          | some (x, v) => return [x ++ '=' :: (← textOfValue script v)]
          | none => fieldsOfWord script w
        return fs ++ rest.flatten
      else if name = "command".toList then return fs ++ (← fieldsOf r)
      else return fs ++ (← fieldsOfWords script r)

def callBuiltin (mode : Mode) (special : Bool) (name : Text) (args : List Text) : Run Unit := do
  let before := (← get).builtin
  modify fun s => { s with builtin := some name }
  let finish : Run Unit := do
    if !(← flush) then
      warn (name ++ ": I/O error".toList)
      modify fun s => { s with status := if s.status % 2 = 0 then s.status + 1 else s.status }
    modify fun s => { s with builtin := before }
  try
    let n ← builtin inner mode name args
    setStatus n
    finish
  catch
    | .error =>
      finish
      if special then throw .error
    | j =>
      finish
      throw j

def mostCalls : Nat := 1000

def callFunction (mode : Mode) (body : Command) (args : List Text) : Run Unit := do
  let s ← get
  if mostCalls ≤ s.calls then
    fail ("Maximum function recursion depth (".toList ++ Text.ofNat mostCalls ++ ") reached".toList)
  set { s with args := args, loops := 0, calls := s.calls + 1 }
  let run : Run Unit := do
    try
      inner mode.going body
    catch
      | .return => return
      | j => throw j
  afterwards run <| modify fun t => { t with args := s.args, loops := s.loops, calls := s.calls }

def callProgram (mode : Mode) (name : Text) (args : List Text) : Run Unit := do
  match ← findProgram name with
  | .error m => tellMissing name m
  | .ok program =>
    let ending ← runProgram inner program name args
    match ending, mode.final && (← get).traps.isEmpty with
    | .killed n, true => throw (.killed n)
    | _, _ => setStatus (← statusOf ending)

def assign (only : Bool) (assignments : List (Text × Word)) : Run (List Text) := do
  let mut shown : List Text := []
  for (name, w) in assignments do
    let value ← textOfValue (outputOf inner) w
    if only then makeLocal name
    setVariable name value
    if only then exportVariable name
    shown := shown ++ [name ++ '=' :: value]
  return shown

def trace (stream : Option Nat) (shown : List Text) : Run Unit := do
  if (← hasOption 'x') ∧ shown ≠ [] then
    let start := (← valueOf? "PS4".toList).getD []
    match stream with
    | some i =>
      let _ ← writeTo i (start ++ Text.join [' '] shown ++ ['\n'])
    | none => return

def simple (mode : Mode) (line : Nat) (assignments : List (Text × Word)) (words : List Word)
    (redirects : List Redirect) : Run Unit := do
  modify fun s => { s with line := line, substituted := 0 }
  let fs ← fieldsOf inner words
  let s ← get
  let (what, args) := callee s (fs.length + 1) true fs
  let name := args.head?.getD []
  let stays : Bool := match what with
    | .builtin _ => name = "exec".toList
    | _ => false
  let special : Bool := match what with
    | .builtin special => special
    | _ => false
  let only : Bool := match what with
    | .nothing => false
    | .builtin special => !special
    | _ => true
  let rs ← redirects.mapM (expandRedirect (outputOf inner))
  let work : Run Unit := do
    if ← applyAll rs then
      let shown ← assign inner only assignments
      trace (s.streams.get? 2) (shown ++ fs)
      match what with
      | .nothing => setStatus (← get).substituted
      | .builtin special => callBuiltin inner mode special name args.tail
      | .function body => callFunction inner mode body args.tail
      | .program => callProgram inner mode name args.tail
    else
      setStatus 2
      if special then throw .error
  let framed := if only then inFrame work else work
  if stays then framed else withStreams framed

/-! ### Compound commands -/

def redirected (line : Nat) (redirects : List Redirect) (x : Run Unit) : Run Unit := do
  modify fun s => { s with line := line }
  let rs ← redirects.mapM (expandRedirect (outputOf inner))
  withStreams do
    if ← applyAll rs then x else setStatus 2

def subshell (mode : Mode) (line : Nat) (c : Command) (redirects : List Redirect) :
    Run Unit := do
  modify fun s => { s with line := line }
  let rs ← redirects.mapM (expandRedirect (outputOf inner))
  let work : Run Unit := do
    modify fun s => { s with reached := 1 }
    rs.forM apply
    inner ⟨mode.tested, true⟩ c
  if mode.final && (← get).traps.isEmpty then work
  else setStatus (← statusOf (← inCopy inner work))

def pipeline (mode : Mode) : Option Nat → List Command → Run Unit
  | _, [] => return
  | input, c :: r => do
    let output ← if r.isEmpty then pure none else some <$> addChannel .writing
    let ending ← inCopy inner do
      match input with
      | some i => setStream 0 i
      | none => pure ()
      match output with
      | some i => setStream 1 i
      | none => pure ()
      inner ⟨mode.tested, true⟩ c
    let status ← statusOf ending
    match output with
    | none => setStatus status
    | some i =>
      match (← get).shared.channels[i]? with
      | some ch => setChannel i { ch with readable := true, writable := false }
      | none => pure ()
      pipeline mode (some i) r

def background (c : Command) : Run Unit := do
  let process := (← get).shared.nextProcess
  modify fun s => { s with shared := { s.shared with nextProcess := process + 1 } }
  let nowhere ← addChannel ⟨.nowhere, true, false, false⟩
  let _ ← inCopy inner do
    setStream 0 nowhere
    inner .last c
  modify fun s => { s with lastBackground := some process, status := 0 }

inductive Round where
  | complete
  | again
  | left

def round (x : Run Unit) : Run Round := do
  try
    x
    return .complete
  catch
    | .leave 0 goesOn | .leave 1 goesOn => return if goesOn then .again else .left
    | .leave (n + 1) goesOn => throw (.leave n goesOn)
    | j => throw j

def rounds (mode : Mode) (wanted : Bool) (condition body : Command) : Nat → Nat → Run Unit
  | 0, last => setStatus last
  | n + 1, last => do
    match ← round (inner .condition condition) with
    | .left => setStatus last
    | .again => rounds mode wanted condition body n last
    | .complete =>
      if ((← get).status = 0) = wanted then
        match ← round (inner mode.going body) with
        | .left => return
        | _ => rounds mode wanted condition body n (← get).status
      else setStatus last

def roundsOver (mode : Mode) (name : Text) (body : Command) : List Text → Run Unit
  | [] => return
  | v :: r => do
    setVariable name v
    match ← round (inner mode.going body) with
    | .left => return
    | _ => roundsOver mode name body r

def inLoop (x : Run Unit) : Run Unit := do
  modify fun s => { s with loops := s.loops + 1 }
  afterwards x <| modify fun s => { s with loops := s.loops - 1 }

def clauseFor (t : Text) : List (List Word × Command) → Run (Option Command)
  | [] => return none
  | (patterns, body) :: r => do
    if ← anyHolds patterns then return some body else clauseFor t r
where
  anyHolds : List Word → Run Bool
    | [] => return false
    | w :: r => do
      if (← patternOfWord (outputOf inner) w).holds t then return true else anyHolds r

def perform (bound : Nat) (mode : Mode) (c : Command) : Run Unit := do
  match c with
  | .nothing => return
  | .simple line assignments words redirects => simple inner mode line assignments words redirects
  | .pipe cs => pipeline inner mode none cs
  | .background c => background inner c
  | .negated c =>
    inner .condition c
    modify fun s => { s with status := if s.status = 0 then 1 else 0 }
  | .both a b =>
    inner .condition a
    if (← get).status = 0 then inner mode b
  | .either a b =>
    inner .condition a
    if (← get).status ≠ 0 then inner mode b
  | .sequence a b =>
    inner mode.going a
    inner mode b
  | .subshell line c redirects => subshell inner mode line c redirects
  | .redirected line c redirects => redirected inner line redirects (inner mode.going c)
  | .branch condition yes no =>
    inner .condition condition
    if (← get).status = 0 then inner mode yes
    else if no.isNothing then setStatus 0
    else inner mode no
  | .loop wanted condition body => inLoop (rounds inner mode wanted condition body bound 0)
  | .each line name words body =>
    modify fun s => { s with line := line }
    let values ← fieldsOfWords (outputOf inner) words
    if values.isEmpty then setStatus 0
    inLoop (roundsOver inner mode name body values)
  | .choose line subject clauses =>
    modify fun s => { s with line := line }
    let t ← textOfWord (outputOf inner) subject
    match ← clauseFor inner t clauses with
    | some body => if body.isNothing then setStatus 0 else inner mode body
    | none => setStatus 0
  | .define _ name body =>
    modify fun s => { s with functions := s.functions.insert name body }
    setStatus 0

def step (bound : Nat) (mode : Mode) (c : Command) : Run Unit := do
  if ← hasOption 'n' then return
  settle inner
  perform inner bound mode c
  settle inner
  if c.isChecked && !mode.tested && (← get).status ≠ 0 && (← hasOption 'e') then throw .exit

def evaluate : Nat → Mode → Command → Run Unit
  | 0, _, _ => throw .exit
  | n + 1, mode, c => step (evaluate n) n mode c

end Run
end Triage.Shell
