import Triage.Report.Summary

set_option autoImplicit false

namespace Triage.Report
open Styled

def fileRules (r : FileRules) : Styled :=
  text (indent ++ "default: ".toList) ++ inStyle (.hue .yellow) r.default.name ++ lit "\n" ++
    r.codes.entries.flatMap fun e =>
      text indent ++ inStyle .dimmed (Text.padStart 8 (codeName e.1)) ++ lit " " ++
        inStyle .dimmed ['→'] ++ lit " " ++ inStyle (.hue .yellow) e.2.name ++ lit "\n"

def noRules : Styled := text indent ++ inStyle .dimmed "no rules".toList ++ lit "\n"

/-- Rules that change nothing are shown like none at all. -/
def rulesOf (rules : ProjectRules) (path : Text) : Styled :=
  match rules.get? path with
  | some r => if r.isPassing then noRules else fileRules r
  | none => noRules

def rules (base : Text) (rules : ProjectRules) (asked : SortedSet Text) : Styled :=
  asked.keys.flatMap fun p =>
    inStyle (.hue .brightCyan) (displayed base p) ++ lit "\n" ++ rulesOf rules p

def rulesJson (rules : ProjectRules) (asked : SortedSet Text) : Json :=
  .record [("version", .ofText version),
    ("files", .object (asked.keys.map fun p =>
      (Json.escape p, Json.ofOption FileRules.toJson (rules.get? p))))]

end Triage.Report
