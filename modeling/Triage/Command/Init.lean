import Triage.Command.Check
import Triage.Settings.Document

set_option autoImplicit false

namespace Triage.Init
open CommandLine Styled

def refusal : Styled :=
  inStyle (.boldHue .red) "Error:".toList ++
    lit " Configuration file already exists. Use --force to overwrite.\n"

def welcome : Styled :=
  let name (t : Text) := inStyle (.hue .cyan) t
  inStyle (.boldHue .green) "Success:".toList ++ lit " Created " ++ name Settings.fileName ++
    lit "\n\nNext steps:\n  1. Review " ++ name Settings.fileName ++
    lit "\n  2. Add rules to " ++ name ".gitattributes".toList ++ lit ", e.g. " ++
    inStyle (.hue .yellow) "legacy/** -ts".toList ++
    lit "\n  3. Run " ++ name (programName ++ " check -- npx tsc --noEmit --pretty false".toList) ++
    lit "\n"

/-- An existing file is overwritten only by force. -/
def run (args : InitArgs) (dir : Text) (colour : Bool) : Attempt Printed := do
  let path := Text.under dir Settings.fileName
  if (← Attempt.ofAction (Action.hasFile path)) && !args.force then
    return ⟨2, [], refusal.render colour⟩
  Attempt.orFail (Action.putFile path (Utf8.encode (Settings.write .default))) fun _ => .unwritable
  return ⟨0, welcome.render colour, []⟩

end Triage.Init
