import Triage.Command.Init
import Triage.Command.Rules

set_option autoImplicit false

namespace Triage.Program
open CommandLine

/-- The working directory, spelled the way the attribute store spells paths. -/
def workingDir (i : Invocation) : Attempt Text := do
  let dir ← match i.directory with
    | some dir => pure dir
    | none => Attempt.orFail Action.getCurrentDir fun e => .settings (.unreadable Path.dot e)
  Attempt.orFail (Action.getCanonical dir) fun e => .settings (.unreadable dir e)

def settingsIn (path : Text) : Attempt Settings := do
  let text ← Attempt.orFail (Action.getText path) fun e => .settings (.unreadable path e)
  match Settings.read text with
  | some s => return s
  | none => throw (.settings .malformed)

/-- The settings of a directory, defaults where it has no settings file. -/
def settingsOf (dir : Text) : Attempt Settings := do
  let path := Text.under dir Settings.fileName
  if ← Attempt.ofAction (Action.hasFile path) then settingsIn path else return .default

def settings (i : Invocation) (dir : Text) : Attempt Settings :=
  match i.config with
  | some path => settingsIn (Text.under dir path)
  | none => settingsOf dir

def perform (i : Invocation) (colour : Bool) : Attempt Printed := do
  let dir ← workingDir i
  match i.command with
  | .init args => Init.run args dir colour
  | .check args => do
    let settings ← settings i dir
    Check.run args settings dir colour (.store ⟨dir⟩)
  | .rules args => do
    let settings ← settings i dir
    ShowRules.run args settings dir colour (.store ⟨dir⟩)

/-- A failure prints its message alone, and exits with 2 unless success is forced. -/
def report (i : Invocation) : Except Failure Printed → Printed
  | .ok p => p
  | .error e =>
    ⟨if i.forcesSuccess then 0 else 2, [], "Error: ".toList ++ e.message ++ ['\n']⟩

def run (i : Invocation) (colour : Bool) : Action Printed := do
  return report i (← ExceptT.run (perform i colour))

end Triage.Program
