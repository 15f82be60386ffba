import Triage.Program

set_option autoImplicit false

/-!
The program on a machine: its arguments, its files and its standard streams. A machine that starts
no programs for it answers every launch as if the program were not there.
-/

namespace Triage.Machine
open CommandLine

def cause : IO.Error → IoError
  | .permissionDenied _ _ _ => .permissionDenied
  | .inappropriateType _ number _ => if number = 20 then .notADirectory else .isADirectory
  | .invalidArgument _ number _ => if number = 36 then .nameTooLong else .nulInPath
  | _ => .notFound

def caught {α : Type} (x : IO α) : IO (Except IoError α) := do
  match ← x.toBaseIO with
  | .ok a => return .ok a
  | .error e => return .error (cause e)

def spelled (t : Text) : String := String.ofList t

def bytes (bs : Bytes) : ByteArray := ⟨bs.toArray⟩

def readAll (path : Text) : IO Bytes := do
  return (← IO.FS.readBinFile (spelled path)).toList

def canonical (path : Text) : IO Text := do
  return (← IO.FS.realPath (spelled path)).toString.toList

def currentDir : IO Text := do
  return (← IO.currentDir).toString.toList

def perform {α : Type} : Action α → IO α
  | .done a => return a
  | .stdin k => do perform (k (← (← IO.getStdin).readBinToEnd).toList)
  | .currentDir k => do perform (k (← caught currentDir))
  | .read path k => do perform (k (← caught (readAll path)))
  | .has path k => do perform (k (← caught (canonical path)).isOk)
  | .write path content k => do
    perform (k (← caught (IO.FS.writeBinFile (spelled path) (bytes content))))
  | .canonical path k => do perform (k (← caught (canonical path)))
  | .start _ k => perform (k (.error .notFound))

def advice : UsageError → Text
  | .unknownArgument => "unexpected argument".toList
  | .invalidValue => "invalid value for an option".toList
  | .argumentConflict => "an argument cannot be used with another".toList
  | .tooManyValues => "unexpected value for a flag".toList
  | .missingRequiredArgument => "a required argument is missing".toList
  | .invalidSubcommand => "unrecognized subcommand".toList
  | .missingSubcommand => "a subcommand is required".toList
  | .version command => versionLine command
  | .helpInstead | .help =>
    "Usage: ".toList ++ programName ++ " [OPTIONS] <".toList ++
      Text.join ['|'] commandNames ++ ">\n".toList

def refusal (e : UsageError) : Printed :=
  match e with
  | .version _ | .help => ⟨e.exitCode, advice e, []⟩
  | .helpInstead => ⟨e.exitCode, [], advice e⟩
  | _ => ⟨e.exitCode, [], "error: ".toList ++ advice e ++ ['\n']⟩

def runWith (args : List Text) : IO Nat := do
  let stdout ← IO.getStdout
  let printed ← match Invocation.parse args with
    | .error e => pure (refusal e)
    | .ok i => perform (Program.run i (← stdout.isTty))
  stdout.write (bytes (Utf8.encode printed.stdout))
  stdout.flush
  (← IO.getStderr).write (bytes (Utf8.encode printed.stderr))
  return printed.exit

end Triage.Machine

def main (args : List String) : IO UInt32 := do
  return UInt32.ofNat (← Triage.Machine.runWith (args.map String.toList))
