import Triage.Command.Check
import Triage.Report.Rules

set_option autoImplicit false

namespace Triage.ShowRules
open CommandLine

def run (args : RulesArgs) (settings : Settings) (dir : Text) (colour : Bool)
    (source : RuleSource) : Attempt Printed := do
  let files := SortedSet.ofList (args.files.map (resolve dir))
  let rules ← source.query files (args.stem.getD settings.stem)
  match args.format with
  | .terminal => return ⟨0, (Report.rules dir rules files).render colour, []⟩
  | .json => return ⟨0, (Report.rulesJson rules files).pretty ++ ['\n'], []⟩

end Triage.ShowRules
