import Triage.Diagnostic
import Triage.Path
import Triage.Styled
import Triage.Text.Decimal

set_option autoImplicit false

namespace Triage.Report
open Styled

def codeName (c : Code) : Text := "TS".toList ++ Text.ofNat c.toNat

def severityStyle : Severity → Style
  | .error => .boldHue .red
  | .warning => .boldHue .yellow
  | .suggestion => .hue .green
  | .message => .hue .blue

/-- Where a diagnostic stands. Line and column are shown together or not at all. -/
def location (base : Text) (d : Diagnostic) : Styled :=
  match d.file, d.line, d.column with
  | some file, some line, some column =>
    inStyle (.hue .cyan) (displayed base file) ++
      text ('(' :: Text.ofNat line.toNat ++ ',' :: Text.ofNat column.toNat ++ "): ".toList)
  | some file, _, _ => inStyle (.hue .cyan) (displayed base file) ++ lit ": "
  | none, _, _ => []

def diagnostic (base : Text) (d : Diagnostic) : Styled :=
  location base d ++ inStyle (severityStyle d.severity) d.severity.word ++ lit " " ++
    inStyle .dimmed (codeName d.code) ++ text (": ".toList ++ d.message)

def countOf (s : Severity) (ds : List Diagnostic) : Nat := ds.countP (·.severity = s)

def diagnostics (base : Text) (ds : List Diagnostic) : Styled :=
  ds.flatMap (fun d => diagnostic base d ++ lit "\n") ++
    lit "\nFound " ++ inStyle (.boldHue .red) (Text.ofNat (countOf .error ds)) ++
    lit " error(s), " ++ inStyle (.boldHue .yellow) (Text.ofNat (countOf .warning ds)) ++
    lit " warning(s).\n"

end Triage.Report
