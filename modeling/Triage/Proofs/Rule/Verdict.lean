import Mathlib.Data.List.Basic
import Triage.Rule

set_option autoImplicit false

/-!
What rules can do to one diagnostic. They drop it or change its severity, some diagnostics are out
of their reach (`Diagnostic.Exempt`), and of the rules of a project two bear on a diagnostic with a
file: the default of the file and the rule of the code in it (`ProjectRules.AgreeAt`). Rules with
the same verdicts on a list (`ProjectRules.AgreeOn`) keep and count the same of it.
-/

namespace Triage

section Severities
variable {s t : Severity} {d d' : Diagnostic}

theorem Severity.informs_iff : s.informs = true ↔ s ∈ [.suggestion, .message] := by
  cases s <;> decide

theorem Severity.rates_iff : s.informs = false ↔ s ∈ [.error, .warning] := by
  cases s <;> decide

theorem DefaultRule.rates_of_verdict {r : DefaultRule} (hs : s.informs = false)
    (h : r.verdict s = .report t) : t.informs = false := by
  cases r with
  | all => cases h; exact hs
  | onlyErrors =>
    by_cases he : s = .error
    · simp only [DefaultRule.verdict, if_pos he] at h
      cases h
      exact hs
    · simp [DefaultRule.verdict, he] at h
  | asWarnings => cases h; rfl
  | ignore => cases h

theorem CodeRule.rates_of_verdict {r : CodeRule} (hs : s.informs = false)
    (h : r.verdict s = .report t) : t.informs = false := by
  cases r with
  | allow => cases h; exact hs
  | asError => cases h; rfl
  | asWarning => cases h; rfl
  | ignore => cases h

theorem FileRules.rates_of_verdict {r : FileRules} {code : Code} (hs : s.informs = false)
    (h : r.verdict code s = .report t) : t.informs = false := by
  simp only [FileRules.verdict, hs, Bool.false_eq_true, if_false] at h
  cases hc : r.codes.get? code with
  | none => exact DefaultRule.rates_of_verdict hs (by simpa [hc] using h)
  | some c => exact CodeRule.rates_of_verdict hs (by simpa [hc] using h)

/-- No rule applies to a diagnostic without a file, nor to one that informs. -/
def Diagnostic.Exempt (d : Diagnostic) : Prop := d.file = none ∨ d.severity.informs = true

theorem ProjectRules.verdict_exempt (rules : ProjectRules) (h : d.Exempt) :
    rules.verdict d = .report d.severity := by
  rcases h with hf | hi
  · simp [ProjectRules.verdict, hf]
  · cases hr : d.file.bind (SortedMap.get? rules) with
    | none => simp [ProjectRules.verdict, hr]
    | some r => simp [ProjectRules.verdict, FileRules.verdict, hr, hi]

theorem ProjectRules.rates_of_verdict {rules : ProjectRules} (hd : d.severity.informs = false)
    (h : rules.verdict d = .report t) : t.informs = false := by
  cases hr : d.file.bind (SortedMap.get? rules) with
  | none =>
    simp only [ProjectRules.verdict, hr] at h
    cases h
    exact hd
  | some r => exact FileRules.rates_of_verdict hd (by simpa [ProjectRules.verdict, hr] using h)

/-- The same diagnostic but for its severity; an error or a warning is still one of the two. -/
structure Diagnostic.Recast (d d' : Diagnostic) : Prop where
  content : d' = { d with severity := d'.severity }
  rates : d.severity.informs = false → d'.severity.informs = false

namespace Diagnostic

theorem Recast.refl (d : Diagnostic) : d.Recast d := ⟨rfl, id⟩

theorem Recast.file (h : d.Recast d') : d'.file = d.file := by rw [h.content]

theorem Recast.code (h : d.Recast d') : d'.code = d.code := by rw [h.content]

theorem Recast.trans {d'' : Diagnostic} (h : d.Recast d') (h' : d'.Recast d'') :
    d.Recast d'' where
  content := by rw [h'.content, h.content]
  rates hd := h'.rates (h.rates hd)

theorem recast_of_under (rules : ProjectRules) (h : d.under (rules.verdict d) = some d') :
    d.Recast d' := by
  cases hv : rules.verdict d with
  | ignore => simp [hv, under] at h
  | report s =>
    simp only [hv, under, Option.some.injEq] at h
    subst h
    exact ⟨rfl, fun hd => ProjectRules.rates_of_verdict hd hv⟩

end Diagnostic
end Severities

section Bearing
variable {path : Text} {code : Code} {rules rules' : ProjectRules}

def ProjectRules.rulesOf (rules : ProjectRules) (path : Text) : FileRules :=
  (rules.get? path).getD .passing

theorem FileRules.verdict_passing (code : Code) (s : Severity) :
    FileRules.passing.verdict code s = .report s := by
  cases s <;> rfl

theorem ProjectRules.verdict_rulesOf (rules : ProjectRules) {d : Diagnostic}
    (h : d.file = some path) :
    rules.verdict d = (rules.rulesOf path).verdict d.code d.severity := by
  cases hr : rules.get? path with
  | none => simp [verdict, rulesOf, h, hr, FileRules.verdict_passing]
  | some r => simp [verdict, rulesOf, h, hr]

/-- Two projects with the same default for a file and the same rule for a code in it. -/
structure ProjectRules.AgreeAt (path : Text) (code : Code) (rules rules' : ProjectRules) :
    Prop where
  default : (rules.rulesOf path).default = (rules'.rulesOf path).default
  code : (rules.rulesOf path).codes.get? code = (rules'.rulesOf path).codes.get? code

theorem ProjectRules.AgreeAt.verdict (h : AgreeAt path code rules rules') {d : Diagnostic}
    (hf : d.file = some path) (hc : d.code = code) : rules.verdict d = rules'.verdict d := by
  rw [rules.verdict_rulesOf hf, rules'.verdict_rulesOf hf]
  simp only [FileRules.verdict, hc, h.default, h.code]

end Bearing

def ProjectRules.AgreeOn (rules rules' : ProjectRules) (ds : List Diagnostic) : Prop :=
  ∀ d ∈ ds, rules'.verdict d = rules.verdict d

namespace ProjectRules
variable {rules rules' : ProjectRules} {ds : List Diagnostic}

theorem AgreeOn.filterMap_under (h : rules.AgreeOn rules' ds) :
    (ds.filterMap fun d => d.under (rules'.verdict d)) =
      ds.filterMap fun d => d.under (rules.verdict d) := by
  apply List.filterMap_congr
  intro d hd
  exact congrArg d.under (h d hd)

theorem AgreeOn.countP (h : rules.AgreeOn rules' ds) (p : Diagnostic → Verdict → Prop)
    [∀ d v, Decidable (p d v)] :
    ds.countP (fun d => p d (rules'.verdict d)) = ds.countP fun d => p d (rules.verdict d) := by
  apply List.countP_congr
  intro d hd
  rw [h d hd]

end ProjectRules
end Triage
