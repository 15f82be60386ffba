import Triage.World

set_option autoImplicit false

/-!
Dealings with the surroundings as data: each step asks one question and goes on with the answer.
`Action.run` answers from a world and keeps a record of the programs that were started.
-/

namespace Triage

inductive Action (α : Type) where
  | done (a : α)
  | stdin (next : Bytes → Action α)
  | currentDir (next : Except IoError Text → Action α)
  | read (path : Text) (next : Except IoError Bytes → Action α)
  | has (path : Text) (next : Bool → Action α)
  | write (path : Text) (content : Bytes) (next : Except IoError Unit → Action α)
  | canonical (path : Text) (next : Except IoError Text → Action α)
  | start (l : Launch) (next : Except IoError Exit → Action α)

/-- What a run in a world comes to: its value, the world after it, and the launches that succeeded.
-/
structure Outcome (α : Type) where
  value : α
  world : World
  launches : List Launch

namespace Action
variable {α β : Type}

def bind : Action α → (α → Action β) → Action β
  | .done a, f => f a
  | .stdin k, f => .stdin fun x => (k x).bind f
  | .currentDir k, f => .currentDir fun x => (k x).bind f
  | .read p k, f => .read p fun x => (k x).bind f
  | .has p k, f => .has p fun x => (k x).bind f
  | .write p c k, f => .write p c fun x => (k x).bind f
  | .canonical p k, f => .canonical p fun x => (k x).bind f
  | .start l k, f => .start l fun x => (k x).bind f

instance : Monad Action where
  pure := .done
  bind := bind

def run : Action α → World → Outcome α
  | .done a, w => ⟨a, w, []⟩
  | .stdin k, w => (k w.stdin).run w
  | .currentDir k, w => (k w.currentDir).run w
  | .read p k, w => (k (w.read p)).run w
  | .has p k, w => (k (w.has p)).run w
  | .write p c k, w =>
    match w.write p c with
    | .ok w => (k (.ok ())).run w
    | .error e => (k (.error e)).run w
  | .canonical p k, w => (k (w.canonical p)).run w
  | .start l k, w =>
    match w.start l with
    | .ok r =>
      let o := (k (.ok r.exit)).run { w with tree := r.tree }
      { o with launches := l :: (r.launches ++ o.launches) }
    | .error e => (k (.error e)).run w

@[simp] theorem run_pure (a : α) (w : World) : (pure a : Action α).run w = ⟨a, w, []⟩ := rfl

/-- A run of two actions is the run of the second behind that of the first. -/
theorem run_bind (x : Action α) (f : α → Action β) (w : World) :
    (x >>= f).run w =
      let o := x.run w
      let o' := (f o.value).run o.world
      { o' with launches := o.launches ++ o'.launches } := by
  change (x.bind f).run w = _
  induction x generalizing w with
  | done a => simp [bind, run]
  | start l k ih =>
    simp only [bind, run]
    split
    · simp [ih]
    · simp [ih]
  | write p c k ih =>
    simp only [bind, run]
    split <;> simp [ih]
  | _ => simp [bind, run, *]

def getStdin : Action Bytes := .stdin .done

def getCurrentDir : Action (Except IoError Text) := .currentDir .done

def getText (path : Text) : Action (Except IoError Text) :=
  .read path fun r => .done (r >>= textOf)

def hasFile (path : Text) : Action Bool := .has path .done

def putFile (path : Text) (content : Bytes) : Action (Except IoError Unit) :=
  .write path content .done

def getCanonical (path : Text) : Action (Except IoError Text) := .canonical path .done

end Action

structure Finished where
  /-- `-1` where a signal killed it. -/
  code : Int
  stdout : Text
  stderr : Text
  deriving DecidableEq, Repr

namespace Finished

/-- The standard output is taken as it is, blanks at the ends of the other output are taken off. -/
def ofExit (e : Exit) : Finished :=
  ⟨match e.code with
    | some n => n
    | none => -1,
   Utf8.lossy e.stdout, Text.trim Text.isBlank (Utf8.lossy e.stderr)⟩

def succeeded (f : Finished) : Bool := f.code = 0

end Finished

inductive LaunchError where
  | notStarted (program : Text) (e : IoError)
  | failed (program : Text) (code : Int) (stderr : Text)
  deriving DecidableEq, Repr

namespace LaunchError

def codeText : Int → Text
  | .ofNat n => Text.ofNat n
  | .negSucc n => '-' :: Text.ofNat (n + 1)

def message : LaunchError → Text
  | .notStarted program e =>
    "Failed to execute '".toList ++ program ++ "': ".toList ++ e.message
  | .failed program code stderr =>
    '\'' :: program ++ "' failed with exit code ".toList ++ codeText code ++ ": ".toList ++ stderr

end LaunchError

namespace Action

def execute (l : Launch) : Action (Except IoError Finished) :=
  .start l fun r => .done (r.map Finished.ofExit)

def executeChecked (l : Launch) : Action (Except LaunchError Text) :=
  .start l fun r => .done <|
    match r.map Finished.ofExit with
    | .error e => .error (.notStarted l.program e)
    | .ok f => if f.succeeded then .ok f.stdout else .error (.failed l.program f.code f.stderr)

end Action
end Triage
