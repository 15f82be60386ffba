import Triage.Diagnostic
import Triage.SortedMap

set_option autoImplicit false

/-!
The rules of a project: for each file a default and overrides for single codes. `FileRules.verdict`
is the whole meaning of a file's rules, `ProjectRules.verdict` that of a project's.
-/

namespace Triage

inductive DefaultRule where
  | all | onlyErrors | asWarnings | ignore
  deriving DecidableEq, Repr

namespace DefaultRule

def every : List DefaultRule := [.all, .onlyErrors, .asWarnings, .ignore]

def name : DefaultRule → Text
  | .all => "all".toList
  | .onlyErrors => "onlyerrors".toList
  | .asWarnings => "aswarnings".toList
  | .ignore => "ignore".toList

def ofName? (w : Text) : Option DefaultRule := every.find? (·.name = w)

theorem ofName?_name (r : DefaultRule) : ofName? r.name = some r := by cases r <;> decide

def verdict (r : DefaultRule) (s : Severity) : Verdict :=
  match r with
  | .all => .report s
  | .onlyErrors => if s = .error then .report s else .ignore
  | .asWarnings => .report .warning
  | .ignore => .ignore

end DefaultRule

inductive CodeRule where
  | allow | asError | asWarning | ignore
  deriving DecidableEq, Repr

namespace CodeRule

def every : List CodeRule := [.allow, .asError, .asWarning, .ignore]

/-- The name shown to a reader. -/
def name : CodeRule → Text
  | .allow => "allow".toList
  | .asError => "error".toList
  | .asWarning => "warning".toList
  | .ignore => "ignore".toList

/-- The name in stored rules. -/
def key : CodeRule → Text
  | .allow => "allow".toList
  | .asError => "aserror".toList
  | .asWarning => "aswarning".toList
  | .ignore => "ignore".toList

def ofKey? (w : Text) : Option CodeRule := every.find? (·.key = w)

theorem ofKey?_key (r : CodeRule) : ofKey? r.key = some r := by cases r <;> decide

def verdict (r : CodeRule) (s : Severity) : Verdict :=
  match r with
  | .allow => .report s
  | .asError => .report .error
  | .asWarning => .report .warning
  | .ignore => .ignore

end CodeRule

structure FileRules where
  default : DefaultRule
  codes : SortedMap Code CodeRule
  deriving DecidableEq

namespace FileRules

def passing : FileRules := ⟨.all, .empty⟩

instance : Inhabited FileRules := ⟨passing⟩

def isPassing (r : FileRules) : Bool := r.default = .all && r.codes.isEmpty

def ignoredCodes (r : FileRules) : SortedSet Code :=
  (r.codes.filter fun _ c => c = .ignore).mapValues fun _ _ => ()

theorem contains_ignoredCodes (r : FileRules) (c : Code) :
    r.ignoredCodes.contains c = true ↔ r.codes.get? c = some .ignore := by
  cases h : r.codes.get? c with
  | none => simp [ignoredCodes, SortedMap.contains, h]
  | some k => simp [ignoredCodes, SortedMap.contains, h]

/-- Informing severities pass, then the rule of the code decides, then the default. -/
def verdict (r : FileRules) (code : Code) (s : Severity) : Verdict :=
  if s.informs then .report s
  else match r.codes.get? code with
    | some c => c.verdict s
    | none => r.default.verdict s

end FileRules

abbrev ProjectRules := SortedMap Text FileRules

namespace ProjectRules

/-- A diagnostic without a file, or with a file without rules, is reported as it is. -/
def verdict (rules : ProjectRules) (d : Diagnostic) : Verdict :=
  match d.file.bind (SortedMap.get? rules) with
  | some r => r.verdict d.code d.severity
  | none => .report d.severity

end ProjectRules
end Triage
