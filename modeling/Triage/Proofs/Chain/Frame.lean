import Mathlib.Data.List.Forall2
import Triage.Proofs.Chain.Stages
import Triage.Proofs.Rule.Verdict

set_option autoImplicit false

namespace Triage

namespace Chain

/-- What becomes of a diagnostic under the rules of one session after another. -/
def fate : List ProjectRules → Diagnostic → Option Diagnostic
  | [], d => some d
  | rules :: rest, d => (d.under (rules.verdict d)).bind (fate rest)

theorem pass_cons (s : Session) (rest : Chain) (d : Diagnostic) :
    pass (s :: rest) d = match d.under (s.rules.verdict d) with
      | none => (none, (s.pass d).2 :: rest)
      | some d' => ((pass rest d').1, (s.pass d).2 :: (pass rest d').2) := by
  rw [← Session.pass_verdict]
  rfl

theorem pass_fate (chain : Chain) (d : Diagnostic) :
    (chain.pass d).1 = fate (chain.map (·.rules)) d := by
  induction chain generalizing d with
  | nil => rfl
  | cons s rest ih =>
    rw [pass_cons]
    cases hd : d.under (s.rules.verdict d) with
    | none => simp [fate, hd]
    | some d' => simpa [fate, hd] using ih d'

theorem pass_rules (chain : Chain) (d : Diagnostic) :
    (chain.pass d).2.map (·.rules) = chain.map (·.rules) := by
  induction chain generalizing d with
  | nil => rfl
  | cons s rest ih =>
    rw [pass_cons]
    cases d.under (s.rules.verdict d) with
    | none => simp [Session.pass_rules]
    | some d' => simpa [Session.pass_rules] using ih d'

theorem sieve_fate (chain : Chain) (ds : List Diagnostic) :
    (chain.sieve ds).1 = ds.filterMap (fate (chain.map (·.rules))) := by
  induction ds generalizing chain with
  | nil => simp
  | cons d ds ih =>
    rw [sieve_cons, ih, pass_fate, pass_rules]
    cases hd : fate (chain.map (·.rules)) d <;> simp [hd]

theorem sieve_rules (chain : Chain) (ds : List Diagnostic) :
    (chain.sieve ds).2.map (·.rules) = chain.map (·.rules) := by
  induction ds generalizing chain with
  | nil => simp
  | cons d ds ih => rw [sieve_cons, ih, pass_rules]

theorem recast_of_fate {projects : List ProjectRules} {d d' : Diagnostic}
    (h : fate projects d = some d') : d.Recast d' := by
  induction projects generalizing d with
  | nil =>
    cases h
    exact .refl d'
  | cons rules rest ih =>
    obtain ⟨e, he, h⟩ := Option.bind_eq_some_iff.1 h
    exact (Diagnostic.recast_of_under rules he).trans (ih h)

theorem fate_exempt (projects : List ProjectRules) {d : Diagnostic} (h : d.Exempt) :
    fate projects d = some d := by
  induction projects with
  | nil => rfl
  | cons rules rest ih => simp [fate, rules.verdict_exempt h, Diagnostic.under, ih]

theorem exists_sublist_filterMap {R : Diagnostic → Diagnostic → Prop}
    {f : Diagnostic → Option Diagnostic} (h : ∀ d d', f d = some d' → R d d')
    (ds : List Diagnostic) : ∃ sub, sub.Sublist ds ∧ List.Forall₂ R sub (ds.filterMap f) := by
  induction ds with
  | nil => exact ⟨[], .slnil, .nil⟩
  | cons d ds ih =>
    obtain ⟨sub, hs, hr⟩ := ih
    cases hf : f d with
    | none => exact ⟨sub, hs.cons d, by simpa [hf] using hr⟩
    | some d' => exact ⟨d :: sub, hs.cons_cons d, by simpa [hf] using hr.cons (h d d' hf)⟩

/-- A chain keeps a part of its list in order and changes severities only. Diagnostics without a
file and those that inform are kept as they are; an error or a warning is dropped, or leaves as one
of the two. -/
theorem sieve_recasts (chain : Chain) (ds : List Diagnostic) :
    let fate := fun d => (chain.pass d).1
    (chain.sieve ds).1 = ds.filterMap fate ∧
    (∃ sub, sub.Sublist ds ∧ List.Forall₂ (fun d d' => d' = { d with severity := d'.severity }) sub
      (chain.sieve ds).1) ∧
    (∀ d, d.file = none ∨ d.severity ∈ [.suggestion, .message] → fate d = some d) ∧
    ∀ d, d.severity ∈ [.error, .warning] →
      fate d = none ∨ ∃ s ∈ [.error, .warning], fate d = some { d with severity := s } := by
  have hk := sieve_fate chain ds
  simp only [pass_fate, ← Severity.informs_iff, ← Severity.rates_iff]
  refine ⟨hk, ?_, fun d => fate_exempt _, fun d hd => ?_⟩
  · rw [hk]
    exact exists_sublist_filterMap (fun d d' h => (recast_of_fate h).content) ds
  · cases hf : fate (chain.map (·.rules)) d with
    | none => exact .inl rfl
    | some d' =>
      have hr := recast_of_fate hf
      exact .inr ⟨d'.severity, hr.rates hd, by rw [← hr.content]⟩

end Chain
end Triage
