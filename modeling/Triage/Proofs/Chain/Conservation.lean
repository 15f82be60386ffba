import Mathlib.Data.List.Chain
import Triage.Proofs.Chain.Frame
import Triage.Proofs.Chain.Slice

set_option autoImplicit false

namespace Triage

section Kept
variable (rules : ProjectRules) (ds : List Diagnostic)

theorem isSome_under (d : Diagnostic) (v : Verdict) :
    (d.under v).isSome = decide (v ≠ .ignore) := by
  cases v <;> simp [Diagnostic.under]

theorem length_kept : (ds.filterMap fun d => d.under (rules.verdict d)).length =
    ds.countP fun d => rules.verdict d ≠ .ignore := by
  simp only [List.length_filterMap_eq_countP, isSome_under]

theorem length_kept_add : (ds.filterMap fun d => d.under (rules.verdict d)).length +
    ds.countP (fun d => rules.verdict d = .ignore) = ds.length := by
  have h := List.length_eq_countP_add_countP (fun d => decide (rules.verdict d = .ignore)) (l := ds)
  simp only [decide_eq_true_eq] at h
  simp only [length_kept, ne_eq]
  omega

theorem countP_file_kept :
    (ds.filterMap fun d => d.under (rules.verdict d)).countP (·.file.isSome) =
      ds.countP fun d => d.file.isSome ∧ rules.verdict d ≠ .ignore := by
  rw [List.countP_filterMap]
  congr 1
  funext d
  cases rules.verdict d <;> simp [Diagnostic.under]

end Kept

namespace Session
variable (rules : ProjectRules) (path : Text) (c : Code) (ds : List Diagnostic)

theorem Balances.passAll {rules : ProjectRules} {seen : List Diagnostic} {s : Session}
    (h : s.Balances rules seen) (ds : List Diagnostic) :
    (s.passAll ds).2.Balances rules (seen ++ ds) := by
  induction ds generalizing s seen with
  | nil => simpa [Session.passAll] using h
  | cons d ds ih => simpa [Session.passAll] using ih (h.pass d)

theorem balances_passAll : ((start rules).passAll ds).2.settle.Balances rules ds :=
  ((Balances.start rules).passAll ds).settle

theorem length_passAll : ds.length =
    ((start rules).passAll ds).1.length + ((start rules).passAll ds).2.report.ignoredTotal := by
  rw [passAll_kept, report, (balances_passAll rules ds).ignored]
  exact (length_kept_add rules ds).symm

theorem raisedTotal_passAll : ((start rules).passAll ds).2.report.raisedTotal =
    ((start rules).passAll ds).1.countP (·.file.isSome) := by
  rw [passAll_kept, report, (balances_passAll rules ds).raised]
  exact (countP_file_kept rules ds).symm

theorem raisedAt_handed : ((start rules).passAll ds).2.report.raisedAt path c =
    (slice path c ((start rules).passAll ds).1).length := by
  rw [raisedAt_passAll, raisedCount_slice, slice_passAll]
  exact (length_kept rules _).symm

theorem counted_handed : (slice path c ds).length =
    ((start rules).passAll ds).2.report.raisedAt path c +
      ((start rules).passAll ds).2.report.ignoredAt path c := by
  rw [raisedAt_passAll, ignoredAt_passAll, raisedCount_slice, ignoredCount_slice, ← length_kept]
  exact (length_kept_add rules _).symm

def HandsTo (s t : Session) : Prop :=
  ∀ path c, s.report.raisedAt path c = t.report.raisedAt path c + t.report.ignoredAt path c

end Session

namespace Chain

theorem length_stages (projects : List ProjectRules) (ds : List Diagnostic) :
    ds.length = (stages (projects.map Session.start) ds).1.length +
      total (fun s => s.report.ignoredTotal) (stages (projects.map Session.start) ds).2 := by
  induction projects generalizing ds with
  | nil => rfl
  | cons rules projects ih =>
    have hd := Session.length_passAll rules ds
    have hr := ih ((Session.start rules).passAll ds).1
    simp only [List.map_cons, stages, total]
    omega

theorem handsTo_stages (projects : List ProjectRules) (ds : List Diagnostic) :
    (stages (projects.map Session.start) ds).2.IsChain Session.HandsTo := by
  induction projects generalizing ds with
  | nil => exact .nil
  | cons rules projects ih =>
    cases projects with
    | nil => exact .singleton _
    | cons rules' projects =>
      refine .cons_cons (fun path c => ?_) (ih ((Session.start rules).passAll ds).1)
      rw [Session.raisedAt_handed]
      exact Session.counted_handed rules' path c _

theorem last_stages (rules : ProjectRules) (projects : List ProjectRules) (ds : List Diagnostic) :
    let run := stages ((rules :: projects).map Session.start) ds
    ∃ last, run.2.getLast? = some last ∧
      (∀ path c, last.report.raisedAt path c = (slice path c run.1).length) ∧
      last.report.raisedTotal = run.1.countP (·.file.isSome) := by
  induction projects generalizing rules ds with
  | nil =>
    exact ⟨_, rfl, fun path c => Session.raisedAt_handed rules path c ds,
      Session.raisedTotal_passAll rules ds⟩
  | cons rules' projects ih =>
    obtain ⟨last, hl, hc, ht⟩ := ih rules' ((Session.start rules).passAll ds).1
    exact ⟨last, by simpa [stages] using hl, hc, ht⟩

/-- Every diagnostic is kept, or counted as ignored by one session. What a session raises its
neighbour raises or ignores, file by file and code by code, and what the last one raises is kept. -/
theorem sieve_conserves (rules : ProjectRules) (projects : List ProjectRules)
    (ds : List Diagnostic) :
    let run := sieve ((rules :: projects).map Session.start) ds
    run.2.map (·.rules) = rules :: projects ∧
    ds.length = run.1.length + total (fun s => s.report.ignoredTotal) run.2 ∧
    run.2.IsChain (fun s t => ∀ path c,
      s.report.raisedAt path c = t.report.raisedAt path c + t.report.ignoredAt path c) ∧
    ∃ last, run.2.getLast? = some last ∧
      (∀ path c, last.report.raisedAt path c =
        run.1.countP fun d => d.file = some path ∧ d.code = c) ∧
      last.report.raisedTotal = run.1.countP (·.file.isSome) := by
  have hr := sieve_rules ((rules :: projects).map Session.start) ds
  obtain ⟨last, hl, hc, ht⟩ := last_stages rules projects ds
  simp only [sieve_stages] at hr ⊢
  refine ⟨?_, length_stages (rules :: projects) ds, handsTo_stages (rules :: projects) ds,
    last, hl, ?_, ht⟩
  · rw [hr, List.map_map]
    exact List.map_id _
  · intro path c
    rw [hc, slice, List.countP_eq_length_filter]

end Chain
end Triage
