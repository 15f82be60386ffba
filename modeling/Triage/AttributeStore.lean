import Triage.AttributeStore.Framing
import Triage.Failure

set_option autoImplicit false

namespace Triage

structure AttributeStore where
  dir : Text
  deriving DecidableEq, Repr

namespace AttributeStore

def program : Text := "git".toList

def rootArgs : List Text := ["rev-parse".toList, "--show-toplevel".toList]

def attributeArgs : List Text :=
  ["check-attr".toList, "-z".toList, "--stdin".toList, "--all".toList]

def listArgs : List Text :=
  ["ls-files".toList, "-z".toList, "--cached".toList, "--others".toList,
   "--exclude-standard".toList]

def commandText (args : List Text) : Text := Text.join [' '] (program :: args)

def launch (s : AttributeStore) (args : List Text) (input : Option Text) : Launch :=
  ⟨program, args, s.dir, input⟩

def root (s : AttributeStore) : Attempt Text := do
  let r ← Attempt.orFail (Action.execute (s.launch rootArgs none)) fun e =>
    .store (.commandFailed (commandText rootArgs) e.message)
  if r.succeeded then return Text.trim Text.isBlank r.stdout
  else throw (.store (.notARepository r.stderr))

/-- The files of the work tree that match patterns, ignored ones left out. -/
def list (s : AttributeStore) (patterns : List Text) : Attempt (SortedSet Text) := do
  let out ← Attempt.orFail
    (Action.executeChecked (s.launch (listArgs ++ "--".toList :: patterns) none)) fun e =>
      .store (.commandFailed (commandText listArgs) e.message)
  let names := (Text.split Framing.nul out).filter (· ≠ [])
  return SortedSet.ofList (names.map (resolve s.dir))

def attributes (s : AttributeStore) (paths : List Text) : Attempt Attributes := do
  let out ← Attempt.orFail
    (Action.executeChecked (s.launch attributeArgs (some (Framing.request paths)))) fun e =>
      .store (.commandFailed (commandText attributeArgs) e.message)
  return Attributes.ofAnswer out

def query (s : AttributeStore) (files : SortedSet Text) (stem : Text) : Attempt ProjectRules := do
  if files.isEmpty then return .empty
  let root ← s.root
  let inside := files.keys.filter (isWithin root)
  if inside = [] then return .empty
  let attributes ← s.attributes inside
  Attempt.ofExcept (ProjectRules.ofAttributes stem attributes) .rule

def available (s : AttributeStore) : Action Bool := do
  match ← Action.execute (s.launch ["--version".toList] none) with
  | .ok r => return r.succeeded
  | .error _ => return false

def name : Text := "gitattributes".toList

end AttributeStore

inductive RuleSource where
  | store (s : AttributeStore)
  | fixed (rules : ProjectRules)

namespace RuleSource

def name : RuleSource → Text
  | .store _ => AttributeStore.name
  | .fixed _ => "static".toList

def query (r : RuleSource) (files : SortedSet Text) (stem : Text) : Attempt ProjectRules :=
  match r with
  | .store s => s.query files stem
  | .fixed rules => return rules.filter fun path _ => files.contains path

end RuleSource
end Triage
