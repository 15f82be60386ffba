import Triage.Proofs.Chain.Stages
import Triage.Proofs.Rule.Verdict

set_option autoImplicit false

namespace Triage

variable {rules rules' : ProjectRules} {ds : List Diagnostic} {path : Text} {t : Tally}

theorem ProjectRules.agreeOn_of_get? (h : ∀ d ∈ ds, ∀ path, d.file = some path →
    rules'.get? path = rules.get? path) : rules.AgreeOn rules' ds := by
  intro d hd
  cases hf : d.file with
  | none => simp [ProjectRules.verdict, hf]
  | some path => simp [ProjectRules.verdict, hf, h d hd path hf]

theorem kept_of_agree (h : rules.AgreeOn rules' ds) :
    ((Session.start rules').passAll ds).1 = ((Session.start rules).passAll ds).1 := by
  rw [Session.passAll_kept, Session.passAll_kept]
  exact h.filterMap_under

theorem raisedCount_of_agree (h : rules.AgreeOn rules' ds) (path : Text) (c : Code) :
    rules'.raisedCount ds path c = rules.raisedCount ds path c :=
  h.countP fun d v => d.file = some path ∧ d.code = c ∧ v ≠ .ignore

theorem ignoredCount_of_agree (h : rules.AgreeOn rules' ds) (path : Text) (c : Code) :
    rules'.ignoredCount ds path c = rules.ignoredCount ds path c :=
  h.countP fun d v => d.file = some path ∧ d.code = c ∧ v = .ignore

theorem Tally.Counts.of_agree (h : rules.AgreeOn rules' ds) (ht : t.Counts rules ds path) :
    t.Counts rules' ds path := by
  constructor
  · intro c
    rw [raisedCount_of_agree h, ht.raised]
  · intro c
    rw [ignoredCount_of_agree h, ht.ignored]

theorem Tally.Accounts.of_agree (h : rules.AgreeOn rules' ds)
    (hp : rules'.get? path = rules.get? path) (ht : t.Accounts rules ds path) :
    t.Accounts rules' ds path := by
  have hv (p : Diagnostic → Prop) : (∀ d ∈ ds, p d → rules'.verdict d ≠ .ignore) ↔
      ∀ d ∈ ds, p d → rules.verdict d ≠ .ignore :=
    forall₂_congr fun d hd => by rw [h d hd]
  refine ⟨ht.toCounts.of_agree h, fun c => ?_, ?_⟩
  · have hc := hv fun d => d.file = some path ∧ d.code = c
    simp only [and_imp] at hc
    rw [ht.stale c, hp, hc]
  · rw [ht.staleDefault, hp, hv]

end Triage
