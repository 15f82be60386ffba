import Triage.Diagnostic.Records
import Triage.Diagnostic.Transcript
import Triage.Failure
import Triage.Settings

set_option autoImplicit false

namespace Triage

inductive Input where
  | stdin
  | file (path : Text)
  | command (argv : List Text)
  deriving DecidableEq, Repr

namespace Input

/-- A command goes before a file; `-` and no file at all mean the standard input. -/
def choose (file : Option Text) (command : List Text) : Input :=
  if command ≠ [] then .command command
  else match file with
    | some path => if path = ['-'] then .stdin else .file path
    | none => .stdin

def getText (dir : Text) : Input → Attempt Text
  | .stdin => do
    Attempt.ofExcept (textOf (← Attempt.ofAction Action.getStdin)) fun e =>
      .input (.unreadable "<stdin>".toList e)
  | .file path =>
    let path := Text.under dir path
    Attempt.orFail (Action.getText path) fun e => .input (.unreadable path e)
  | .command [] => return []
  | .command (program :: args) => do
    let r ← Attempt.orFail (Action.execute ⟨program, args, dir, none⟩) fun e =>
      .input (.notStarted program e)
    return r.stdout

def parse (format : InputFormat) (dir text : Text) : Except InputError (List Diagnostic) :=
  match format with
  | .tsc => .ok (Transcript.read dir text)
  | .json =>
    match Records.read dir text with
    | .ok ds => .ok ds
    | .error .malformed => .error .malformed
    | .error (.unknownSeverity w) => .error (.unknownSeverity w)

def read (i : Input) (format : InputFormat) (dir : Text) : Attempt (List Diagnostic) := do
  let text ← i.getText dir
  Attempt.ofExcept (parse format dir text) .input

end Input
end Triage
