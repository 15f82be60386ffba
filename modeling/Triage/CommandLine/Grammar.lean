import Triage.Text

set_option autoImplicit false

/-!
Options and operands on a command line. A grammar says what one level takes; `Grammar.scan` reads
the arguments from left to right and stops at a subcommand. The value of an option that stands in
an argument of its own is looked at when the next option or operand comes, or at the end.
-/

namespace Triage.CommandLine

inductive UsageError where
  | unknownArgument
  | invalidValue
  | argumentConflict
  | tooManyValues
  | missingRequiredArgument
  | invalidSubcommand
  | missingSubcommand
  /-- Nothing was asked for. -/
  | helpInstead
  | help
  | version (command : Text)
  deriving DecidableEq, Repr

namespace UsageError

def exitCode : UsageError → Nat
  | .help | .version _ => 0
  | _ => 2

end UsageError

inductive Kind where
  /-- Given at most once. -/
  | flag
  /-- Given any number of times. -/
  | count
  /-- With a value that passes a test, at most once. -/
  | value (accepts : Text → Bool)
  | help
  | version

structure OptionSpec where
  name : Text
  short : Option Char
  kind : Kind

inductive Operands where
  | nowhere
  | behindDashes
  | anywhere
  deriving DecidableEq, Repr

structure Grammar where
  command : Text
  options : List OptionSpec
  operands : Operands
  subcommands : List Text

namespace Grammar

def long? (g : Grammar) (name : Text) : Option OptionSpec := g.options.find? (·.name = name)

def short? (g : Grammar) (c : Char) : Option OptionSpec := g.options.find? (·.short = some c)

end Grammar

/-- An option whose value has to come, or has come and was not looked at yet. -/
structure Pending where
  option : OptionSpec
  value : Option Text

structure Scan where
  given : List (Text × Text)
  operands : List Text
  pending : Option Pending
  trailing : Bool

namespace Scan

def start : Scan := ⟨[], [], none, false⟩

def has (s : Scan) (name : Text) : Bool := s.given.any (·.1 = name)

def count (s : Scan) (name : Text) : Nat := s.given.countP (·.1 = name)

def value? (s : Scan) (name : Text) : Option Text :=
  (s.given.find? fun g => g.1 = name).map (·.2)

def awaits (s : Scan) : Bool :=
  match s.pending with
  | some ⟨_, none⟩ => true
  | _ => false

def put (s : Scan) (name value : Text) : Scan := { s with given := s.given ++ [(name, value)] }

def takeValue (s : Scan) (o : OptionSpec) (v : Text) : Except UsageError Scan :=
  if s.has o.name then .error .argumentConflict
  else match o.kind with
    | .value accepts => if accepts v then .ok (s.put o.name v) else .error .invalidValue
    | _ => .error .tooManyValues

def resolve (s : Scan) : Except UsageError Scan :=
  match s.pending with
  | none => .ok s
  | some ⟨_, none⟩ => .error .invalidValue
  | some ⟨o, some v⟩ => { s with pending := none }.takeValue o v

def takeFlag (g : Grammar) (s : Scan) (o : OptionSpec) : Except UsageError Scan := do
  let s ← s.resolve
  match o.kind with
  | .help => .error .help
  | .version => .error (.version g.command)
  | .count => .ok (s.put o.name [])
  | _ => if s.has o.name then .error .argumentConflict else .ok (s.put o.name [])

def attach (s : Scan) (o : OptionSpec) (v : Text) : Except UsageError Scan := do
  (← s.resolve).takeValue o v

def await (s : Scan) (o : OptionSpec) : Except UsageError Scan := do
  return { ← s.resolve with pending := some ⟨o, none⟩ }

def takesValue (o : OptionSpec) : Bool :=
  match o.kind with
  | .value _ => true
  | _ => false

def takeLong (g : Grammar) (s : Scan) (name : Text) (v : Option Text) : Except UsageError Scan :=
  match g.long? name with
  | none => .error .unknownArgument
  | some o =>
    match takesValue o, v with
    | true, some v => s.attach o v
    | true, none => s.await o
    | false, some _ => .error .tooManyValues
    | false, none => s.takeFlag g o

/-- Takes short options from one argument; the first that has a value takes the rest as its value.
-/
def takeShorts (g : Grammar) : Scan → Text → Except UsageError Scan
  | s, [] => .ok s
  | s, c :: r =>
    match g.short? c with
    | none => .error .unknownArgument
    | some o =>
      if takesValue o then
        match r with
        | [] => s.await o
        | '=' :: v => s.attach o v
        | v => s.attach o v
      else do takeShorts g (← s.takeFlag g o) r

def takeOperand (g : Grammar) (s : Scan) (arg : Text) : Except UsageError Scan :=
  match g.operands with
  | .nowhere =>
    if g.subcommands = [] ∨ (s.trailing ∧ arg ∈ g.subcommands) then .error .unknownArgument
    else .error .invalidSubcommand
  | .behindDashes =>
    if s.trailing then do
      let s ← s.resolve
      return { s with operands := s.operands ++ [arg] }
    else .error .unknownArgument
  | .anywhere => do
    let s ← s.resolve
    return { s with operands := s.operands ++ [arg] }

end Scan

inductive Token where
  | dashes
  | long (name : Text) (value : Option Text)
  | shorts (letters : Text)
  | word

def Token.ofArg : Text → Token
  | ['-', '-'] => .dashes
  | '-' :: '-' :: r =>
    match r.dropWhile (· ≠ '=') with
    | [] => .long r none
    | _ :: v => .long (r.takeWhile (· ≠ '=')) (some v)
  | '-' :: c :: r => .shorts (c :: r)
  | _ => .word

/-- Reads arguments up to the end or a subcommand, whose name and arguments are handed on. -/
def Grammar.scan (g : Grammar) :
    Scan → List Text → Except UsageError (Scan × Option (Text × List Text))
  | s, [] => .ok (s, none)
  | s, arg :: rest =>
    if s.trailing then do g.scan (← s.takeOperand g arg) rest
    else if !s.awaits && g.subcommands.contains arg then .ok (s, some (arg, rest))
    else match Token.ofArg arg with
      | .dashes => g.scan { s with trailing := true } rest
      | .long name v => do g.scan (← s.takeLong g name v) rest
      | .shorts cs => do g.scan (← s.takeShorts g cs) rest
      | .word =>
        match s.pending with
        | some ⟨o, none⟩ => g.scan { s with pending := some ⟨o, some arg⟩ } rest
        | _ => do g.scan (← s.takeOperand g arg) rest

end Triage.CommandLine
