import Triage.Fixture.Shell.Condition
import Triage.Fixture.Shell.Format
import Triage.Fixture.Shell.Program

set_option autoImplicit false

namespace Triage.Shell.Builtin
open Run

/-- The letters of options before the other arguments, the argument of one, and the rest. Letters
with a colon behind them take an argument. -/
def options (allowed : Text) : Nat → List Text → Run (List (Char × Text) × List Text)
  | 0, args => return ([], args)
  | n + 1, args => do
    match args with
    | ['-', '-'] :: r => return ([], r)
    | ('-' :: c :: t) :: r =>
      let rest := allowed.dropWhile (· ≠ c)
      if c = ':' ∨ rest = [] then fail ("Illegal option -".toList ++ [c])
      if rest[1]? = some ':' then
        match t, r with
        | [], [] => fail ("No arg for -".toList ++ c :: " option".toList)
        | [], a :: r =>
          let (os, r) ← options allowed n r
          return ((c, a) :: os, r)
        | t, r =>
          let (os, r) ← options allowed n r
          return ((c, t) :: os, r)
      else
        let (os, r) ← options allowed n (if t = [] then r else ('-' :: t) :: r)
        return ((c, []) :: os, r)
    | _ => return ([], args)

def optionsOf (allowed : String) (args : List Text) : Run (List (Char × Text) × List Text) :=
  options allowed.toList (args.flatten.length + args.length + 1) args

def number (t : Text) : Run Nat := do
  match Number.count? t with
  | some n => return n
  | none => fail ("Illegal number: ".toList ++ t)

/-! ### Output -/

def echo (args : List Text) : Run Nat := do
  put (Shell.echo args)
  return 0

def printf (args : List Text) : Run Nat := do
  match ← optionsOf "" args with
  | (_, []) => fail "usage: printf format [arg ...]".toList
  | (_, format :: args) =>
    let (t, complaints, error) := Format.print format args
    put t
    complaints.forM warn
    match error with
    | some e => fail e
    | none => return if complaints = [] then 0 else 1

/-! ### Conditions -/

def about (s : State) (letter : Char) (t : Text) : Bool :=
  match s.shared.tree.find (if t = [] then [] else Text.under s.dir (Octets.text t)) with
  | .error _ => false
  | .ok place =>
    let isDirectory : Bool := (s.shared.tree.node? place).any (· = .directory)
    if ['e', 'r', 'w', 'O', 'G'].contains letter then true
    else if letter = 'f' then !isDirectory && place.head? ≠ some "dev".toList
    else if letter = 'd' then isDirectory
    else if letter = 'x' then isDirectory || (programIn? place).isSome
    else if letter = 'c' then !isDirectory && place.head? = some "dev".toList
    else if letter = 's' then
      match s.shared.tree.node? place with
      | some (.file content) => !content.isEmpty
      | _ => isDirectory
    else false

def test (bracket : Bool) (args : List Text) : Run Nat := do
  match Condition.holds (about (← get)) bracket args with
  | .ok r => return if r then 0 else 1
  | .error e => fail e.message

/-! ### Directories -/

def changeTo (dir shown : Text) (tell : Bool) : Run Nat := do
  let s ← get
  let refused : Text := "can't cd to ".toList ++ shown
  match s.shared.tree.find dir with
  | .error _ => fail refused
  | .ok place =>
    if (s.shared.tree.node? place).any (· = .directory) then
      let new := Path.render ⟨true, place⟩
      let before := Octets.ofText s.dir
      set { s with dir := new }
      setVariable "OLDPWD".toList before
      setVariable "PWD".toList (Octets.ofText new)
      exportVariable "OLDPWD".toList
      exportVariable "PWD".toList
      if tell then put (Octets.ofText new ++ ['\n'])
      return 0
    else fail refused

def cd (args : List Text) : Run Nat := do
  let (_, r) ← optionsOf "LP" args
  let back : Bool := r.head? = some ['-']
  let home := (← valueOf? (if back then "OLDPWD".toList else "HOME".toList)).getD []
  let t := if back then home else r.head?.getD home
  let s ← get
  changeTo (Text.under s.dir (Octets.text (if t = [] then ['.'] else t))) t back

def pwd (args : List Text) : Run Nat := do
  let _ ← optionsOf "LP" args
  let s ← get
  put (Octets.ofText s.dir ++ ['\n'])
  return 0

/-! ### Variables -/

def split (t : Text) : Text × Option Text :=
  match t.dropWhile (· ≠ '=') with
  | [] => (t, none)
  | _ :: v => (t.takeWhile (· ≠ '='), some v)

def checkName (name : Text) : Run Unit := do
  if !isName name then fail (name ++ ": bad variable name".toList)

def declare (mark : Variable → Variable) (args : List Text) : Run Nat := do
  let (_, names) ← optionsOf "" args
  for a in names do
    let (name, value) := split a
    checkName name
    match value with
    | some v => setVariable name v
    | none => pure ()
    alterVariable name mark
  return 0

def export_ : List Text → Run Nat :=
  declare fun v => { v with exported := true }

def readonly : List Text → Run Nat :=
  declare fun v => { v with fixed := true }

def local_ (args : List Text) : Run Nat := do
  if (← get).frames.isEmpty then fail "not in a function".toList
  for a in args do
    if a = ['-'] then makeOptionsLocal
    else
      let (name, value) := split a
      checkName name
      makeLocal name
      match value with
      | some v => setVariable name v
      | none => pure ()
  return 0

def unset (args : List Text) : Run Nat := do
  let (os, names) ← optionsOf "vf" args
  for name in names do
    if os.getLast?.map (·.1) = some 'f' then
      modify fun s => { s with functions := s.functions.erase name }
    else
      checkName name
      if ← isFixed name then fail (name ++ ": is read only".toList)
      modify fun s => { s with environment := s.environment.erase name }
  return 0

def shift (args : List Text) : Run Nat := do
  let n ← match args.head? with
    | some t => number t
    | none => pure 1
  let s ← get
  if s.args.length < n then fail "can't shift that many".toList
  set { s with args := s.args.drop n }
  return 0

/-! ### Options -/

def optionNames : List (String × Option Char) :=
  [("errexit", some 'e'), ("noglob", some 'f'), ("ignoreeof", some 'I'), ("interactive", some 'i'),
   ("monitor", some 'm'), ("noexec", some 'n'), ("stdin", some 's'), ("xtrace", some 'x'),
   ("verbose", some 'v'), ("vi", some 'V'), ("emacs", some 'E'), ("noclobber", some 'C'),
   ("allexport", some 'a'), ("notify", some 'b'), ("nounset", some 'u'), ("privileged", some 'p'),
   ("nolog", none), ("debug", none)]

def turn (on : Bool) (c : Char) : Run Unit := do
  if !optionLetters.contains c then fail ("Illegal option -".toList ++ [c])
  modify fun s =>
    let others := s.options.filter (· ≠ c)
    { s with options := if on then c :: others else others }

def turnNamed (on : Bool) (name : Option Text) : Run Unit := do
  match name with
  | some t =>
    match optionNames.find? fun e => e.1.toList = t with
    | some (_, some c) => turn on c
    | some (_, none) => return
    | none => fail ("Illegal option -o ".toList ++ t)
  | none => return

structure Parsed where
  rest : List Text
  ended : Bool
  script : Bool

/-- Options by letters, turned on behind a hyphen and off behind a plus sign. The flag tells whether
a shell is being started. -/
def takeOptions (starting : Bool) : List Text → Run Parsed
  | [] => return ⟨[], false, false⟩
  | a :: r => do
    match a with
    | '-' :: t =>
      if t = [] then
        if !starting then
          turn false 'x'
          turn false 'v'
        return ⟨r, true, false⟩
      else if t = ['-'] then return ⟨r, true, false⟩
      else letters true t r
    | '+' :: t => letters false t r
    | _ => return ⟨a :: r, false, false⟩
termination_by args => (args.length, 0)
where
  letters (on : Bool) : Text → List Text → Run Parsed
    | [], r => takeOptions starting r
    | c :: t, r => do
      if c = 'c' ∧ starting then
        let p ← letters on t r
        return { p with script := true }
      else if c = 'l' ∧ starting then letters on t r
      else if c = 'o' then
        turnNamed on r.head?
        match r with
        | [] => letters on t []
        | _ :: r => letters on t r
      else
        turn on c
        letters on t r
  termination_by t r => (r.length, t.length + 1)

def set_ (args : List Text) : Run Nat := do
  let p ← takeOptions false args
  if p.rest ≠ [] ∨ p.ended ∧ args.contains ['-', '-'] then
    modify fun s => { s with args := p.rest }
  return 0

/-! ### Input -/

/-- A line and the octets it took; a backslash takes the next one as it is unless lines are raw.
Without a line end the input is over. -/
def line (raw : Bool) : Text → List Cell × Nat × Bool
  | [] => ([], 0, false)
  | c :: r =>
    if c = '\n' then ([], 1, true)
    else if c = '\x00' then
      let (cs, n, ended) := line raw r
      (cs, n + 1, ended)
    else if c = '\\' ∧ !raw then
      match r with
      | [] => ([], 1, false)
      | d :: r =>
        let (cs, n, ended) := line raw r
        (if d = '\n' then cs else .char d true false :: cs, n + 2, ended)
    else
      let (cs, n, ended) := line raw r
      (.char c false true :: cs, n + 1, ended)

def isSeparator (separators : Text) : Cell → Bool
  | .char c _ parts => parts && separators.contains c
  | _ => false

def isBlankSeparator (separators : Text) : Cell → Bool
  | .char c quoted parts => isSeparator separators (.char c quoted parts) && blanks.contains c
  | _ => false

def firstField (separators : Text) (cs : List Cell) : List Cell × List Cell :=
  let blank := isBlankSeparator separators
  let field := cs.takeWhile fun c => !isSeparator separators c
  let r := (cs.drop field.length).dropWhile blank
  let r := match r with
    | c :: r' => if isSeparator separators c then r'.dropWhile blank else r
    | [] => []
  (field, r)

/-- How many cells of a last field stay, given how many there were, where it would end, and whether
one separator more may follow there. It ends where only blanks follow, and such a separator among
them; what a backslash took is passed over. -/
def lastLength (separators : Text) : Nat → Option Nat → Bool → List Cell → Nat
  | n, stop, _, [] => stop.getD n
  | n, stop, after, c :: r =>
    if isBlankSeparator separators c then
      lastLength separators (n + 1) (some (stop.getD n)) after r
    else
      match c with
      | .char _ _ true =>
        let stop := if after && isSeparator separators c then stop else none
        lastLength separators (n + 1) stop false r
      | _ => lastLength separators (n + 1) stop false r

def lastField (separators : Text) (cs : List Cell) : List Cell :=
  let n := (cs.takeWhile fun c => !isSeparator separators c).length
  match cs.drop n with
  | [] => cs
  | c :: r => cs.take (lastLength separators (n + 1) (some n) (isBlankSeparator separators c) r)

def fieldsFor (separators : Text) : Nat → List Cell → List Text
  | 0, _ => []
  | 1, cs => [Cell.text (lastField separators cs)]
  | n + 1, cs =>
    let (field, r) := firstField separators cs
    Cell.text field :: fieldsFor separators n r

def read (args : List Text) : Run Nat := do
  let (os, names) ← optionsOf "p:r" args
  if names = [] then fail "arg count".toList
  let input := ((← get).streams.get? 0).getD 0
  match ← ahead input with
  | .error _ =>
    names.forM fun x => do
      checkName x
      setVariable x []
    return 1
  | .ok t =>
    let (cs, n, ended) := line (os.any fun o => o.1 = 'r') t
    consume input n
    let sep ← separators
    let cs := cs.dropWhile (isBlankSeparator sep)
    for (x, v) in names.zip (fieldsFor sep names.length cs) do
      checkName x
      setVariable x v
    return if ended then 0 else 1

/-! ### Signals -/

def signalNames : List String :=
  ["EXIT", "HUP", "INT", "QUIT", "ILL", "TRAP", "ABRT", "BUS", "FPE", "KILL", "USR1", "SEGV",
   "USR2", "PIPE", "ALRM", "TERM"]

def signal? (t : Text) : Option Nat :=
  if t ≠ [] ∧ t.all Char.isDigit then
    (Number.count? t).filter fun n => n < signalNames.length
  else
    signalNames.findIdx? fun s => s.toList = t.map Char.toUpper

def send (signal process : Nat) : Run Bool := do
  let s ← get
  if process = s.process then
    if signal = 0 then return true
    if s.isCopy then
      set { s with shared := { s.shared with
        signals := s.shared.signals ++ [(process, signal)] } }
    else deliver signal
    return true
  else if process < s.shared.nextProcess ∧ firstProcess ≤ process then
    if signal ≠ 0 then
      set { s with shared := { s.shared with
        signals := s.shared.signals ++ [(process, signal)] } }
    return true
  else return false

def killUsage : Text :=
  "Usage: kill [-s sigspec | -signum | -sigspec] [pid | job]... or\nkill -l [exitstatus]".toList

def kill (args : List Text) : Run Nat := do
  let (signal, targets) ← match args with
    | [] => fail killUsage
    | a :: r =>
      match a with
      | '-' :: t =>
        match signal? t with
        | some n => pure (some n, r)
        | none =>
          let (os, r) ← optionsOf "s:" args
          let mut signal := none
          for (_, t) in os do
            match signal? t with
            | some n => signal := some n
            | none => fail ("invalid signal number or name: ".toList ++ t)
          pure (signal, r)
      | _ => pure (none, args)
  if targets = [] then fail killUsage
  let mut status := 0
  for t in targets do
    let n ← number (if t.head? = some '-' then t.tail else t)
    if !(← send (signal.getD 15) n) then
      warn "No such process\n".toList
      status := 1
  return status

def trap (args : List Text) : Run Nat := do
  let (_, args) ← optionsOf "" args
  match args with
  | [] => return 0
  | a :: r =>
    let isNumber : Bool := a ≠ [] && a.all Char.isDigit && (signal? a).isSome
    let (action, names) := if r = [] || isNumber then (['-'], args) else (a, r)
    for name in names do
      match signal? name with
      | none =>
        let _ ← write 2 ("trap: ".toList ++ name ++ ": bad trap\n".toList)
        return 1
      | some n =>
        modify fun s => { s with
          traps := if action = ['-'] then s.traps.erase n else s.traps.insert n action }
    return 0

def plain : List (String × (List Text → Run Nat)) :=
  [("echo", echo), ("printf", printf), ("test", test false), ("[", test true), ("cd", cd),
   ("chdir", cd), ("pwd", pwd), ("export", export_), ("readonly", readonly), ("local", local_),
   ("unset", unset), ("shift", shift), ("set", set_), ("read", read), ("kill", kill),
   ("trap", trap), ("wait", fun _ => return 0), ("true", fun _ => return 0),
   (":", fun _ => return 0), ("false", fun _ => return 1)]

def running : List String :=
  [".", "eval", "exec", "exit", "return", "break", "continue", "command", "type"]

def isBuiltin (name : Text) : Bool :=
  running.any (fun n => n.toList = name) || plain.any fun e => e.1.toList = name

end Triage.Shell.Builtin
