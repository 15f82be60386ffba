import Triage.World

set_option autoImplicit false

namespace Triage

structure Reply where
  out : Text
  err : Text
  code : Nat
  deriving DecidableEq, Repr

abbrev StoreScript := Option (List (Text × Reply))

namespace StoreScript

def refusal : Reply :=
  ⟨[], "fatal: not a git repository (or any of the parent directories): .git\n".toList, 128⟩

def reply (replies : List (Text × Reply)) (args : List Text) : Reply :=
  match args with
  | [] => refusal
  | a :: _ => ((replies.find? fun r => r.1 = a).map (·.2)).getD refusal

end StoreScript
end Triage
