import Triage.Rule.Attribute
import Triage.World.Action

set_option autoImplicit false

namespace Triage

inductive SettingsError where
  | unreadable (path : Text) (e : IoError)
  | badTable (path : Text)
  | malformed
  deriving DecidableEq, Repr

inductive InputError where
  | unreadable (path : Text) (e : IoError)
  | notStarted (program : Text) (e : IoError)
  | malformed
  | unknownSeverity (word : Text)
  deriving DecidableEq, Repr

inductive StoreError where
  | commandFailed (command message : Text)
  | notARepository (message : Text)
  deriving DecidableEq, Repr

inductive Failure where
  | rule (e : RuleError)
  | settings (e : SettingsError)
  | input (e : InputError)
  | store (e : StoreError)
  | unwritable
  deriving DecidableEq, Repr

namespace SettingsError

def message : SettingsError → Text
  | .unreadable path e =>
    "Failed to read config file '".toList ++ path ++ "': ".toList ++ e.message
  | .badTable path => "Invalid message table '".toList ++ path ++ "':".toList
  | .malformed => "Failed to parse config:".toList

end SettingsError

namespace InputError

def message : InputError → Text
  | .unreadable path e =>
    "Failed to read diagnostics from '".toList ++ path ++ "': ".toList ++ e.message
  | .notStarted program e =>
    "Failed to run compiler '".toList ++ program ++ "': ".toList ++ e.message
  | .malformed => "Invalid JSON diagnostics:".toList
  | .unknownSeverity word => "Unknown diagnostic category '".toList ++ word ++ ['\'']

end InputError

namespace StoreError

def message : StoreError → Text
  | .commandFailed command message =>
    "Command failed: ".toList ++ command ++ ": ".toList ++ message
  | .notARepository message => "Not a git repository: ".toList ++ message

end StoreError

namespace Failure

def message : Failure → Text
  | .rule e => "Rule error: ".toList ++ e.message
  | .settings e => "Configuration error: ".toList ++ e.message
  | .input e => "Diagnostic source error: ".toList ++ e.message
  | .store e => "Provider error: ".toList ++ e.message
  | .unwritable => "Failed to write configuration file".toList

end Failure

abbrev Attempt := ExceptT Failure Action

namespace Attempt
variable {α : Type}

def ofAction (a : Action α) : Attempt α := ExceptT.lift a

def orFail {ε : Type} (a : Action (Except ε α)) (f : ε → Failure) : Attempt α :=
  ExceptT.mk do
    match ← a with
    | .ok x => return .ok x
    | .error e => return .error (f e)

def ofExcept {ε : Type} (r : Except ε α) (f : ε → Failure) : Attempt α :=
  match r with
  | .ok x => pure x
  | .error e => throw (f e)

def run (t : Attempt α) (w : World) : Outcome (Except Failure α) := Action.run (ExceptT.run t) w

end Attempt
end Triage
