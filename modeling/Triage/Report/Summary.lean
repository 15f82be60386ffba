import Triage.Catalog
import Triage.Release
import Triage.Report.Diagnostics
import Triage.Summary.Record

set_option autoImplicit false

/-!
The summary of a run: every code of every file, or one line for each file, or a JSON document. Only
files with anything to show appear, in the order of their paths; the totals are those of the whole
run.
-/

namespace Triage.Report
open Styled

/-- The files to show: known ones and those of the summary, as far as the summary has anything on
them. -/
def order (s : Summary) (known : SortedSet Text) : List Text :=
  (SortedSet.addAll known s.keys).keys.filter fun p => (s.get? p).any Tally.isReportable

def shown (s : Summary) (known : SortedSet Text) : List (Text × Tally) :=
  (order s known).filterMap fun p => (s.get? p).map (p, ·)

def indent : Text := "    ".toList

def unknownMessage : Text := "<no diagnostic seen for this code>".toList

def messageOf (c : Catalog) (code : Code) : Text := (c.get? code).getD unknownMessage

def banner : Styled :=
  inStyle (.hue .green) "-------".toList ++ lit "\n" ++
    inStyle (.hue .green) "Summary".toList ++ lit "\n" ++
    inStyle (.hue .green) "-------".toList ++ lit "\n\n"

def codeColumn (c : Code) : Text := Text.padStart 8 (codeName c) ++ [':']

/-- The line of a code and its message, with what stands in front of the code. -/
def codeLine (front : Styled) (c : Code) (message : Text) : Styled :=
  text (indent ++ indent) ++ front ++ inStyle .dimmed (codeColumn c) ++
    text (' ' :: message ++ ['\n'])

def countColumn (n : Nat) : Styled :=
  inStyle (.hue .yellow) (Text.padStart 4 (Text.ofNat n ++ ['x']))

def codeGroup (message : Code → Text) (header : String) (codes : SortedMap Code Nat) : Styled :=
  if codes.isEmpty then []
  else
    text (indent ++ header.toList ++ ['\n']) ++
      (ranked codes).flatMap fun e => codeLine (countColumn e.2) e.1 (message e.1)

def staleRules (message : Code → Text) (t : Tally) : Styled :=
  if t.hasStale then
    text (indent ++ "Unnecessary ignore rules:\n".toList) ++
      (if t.staleDefault then
        text (indent ++ indent ++ "All ".toList) ++
          inStyle .dimmed
            "(all diagnostics are ignored, but none were raised by this file)".toList ++
          lit "\n"
      else []) ++
      t.stale.keys.flatMap fun c => codeLine [] c (message c)
  else []

/-- Codes that were counted and codes of stale rules have their messages from one function each. -/
def fileDetails (base : Text) (counted stale : Code → Text) (path : Text) (t : Tally) : Styled :=
  inStyle (.hue .brightCyan) (displayed base path) ++ lit "\n" ++
    codeGroup counted "Raised diagnostics:" t.raised ++
    codeGroup counted "Ignored diagnostics:" t.ignored ++
    staleRules stale t ++ lit "\n"

/-- A sum of counts, which wraps around at 64 bits. -/
def figure (n : Nat) : Nat := n % UInt64.size

def fileLine (base path : Text) (t : Tally) : Styled :=
  inStyle (.hue .brightCyan) (displayed base path) ++
    lit "  raised " ++ inStyle (.hue .yellow) (Text.ofNat (figure t.raisedTotal)) ++
    lit "  ignored " ++ inStyle .dimmed (Text.ofNat (figure t.ignoredTotal)) ++
    lit "  stale rules " ++
    (if t.hasStale then inStyle (.boldHue .red) (Text.ofNat (figure t.staleTotal))
    else lit "0") ++
    lit "\n"

def totals (s : Summary) : Styled :=
  lit "Raised: " ++ inStyle (.boldHue .yellow) (Text.ofNat (figure s.raisedTotal)) ++
    lit " │ Ignored: " ++ inStyle .bold (Text.ofNat (figure s.ignoredTotal)) ++
    lit " │ Unnecessary rules: " ++ inStyle (.boldHue .red) (Text.ofNat (figure s.staleTotal)) ++
    lit "\n"

def detailedWith (base : Text) (counted stale : Code → Text) (s : Summary)
    (known : SortedSet Text) : Styled :=
  banner ++ (shown s known).flatMap (fun e => fileDetails base counted stale e.1 e.2) ++ totals s

def detailed (base : Text) (catalog : Catalog) (s : Summary) (known : SortedSet Text) : Styled :=
  detailedWith base (messageOf catalog) (messageOf catalog) s known

def terse (base : Text) (s : Summary) (known : SortedSet Text) : Styled :=
  banner ++ (shown s known).flatMap (fun e => fileLine base e.1 e.2) ++ lit "\n" ++ totals s

def summaryJson (s : Summary) (known : SortedSet Text) : Json :=
  let files := shown s known
  .record [("version", .ofText version),
    ("totals", .record [
      ("files", .ofNat files.length),
      ("raised", .ofNat (figure s.raisedTotal)),
      ("ignored", .ofNat (figure s.ignoredTotal)),
      ("unnecessary_rules", .ofNat (figure s.staleTotal))]),
    ("files", .object (files.map fun e => (Json.escape e.1, e.2.toJson)))]

end Triage.Report
