import Triage.Proofs.Chain.Conservation
import Triage.Proofs.SortedMap

set_option autoImplicit false

namespace Triage

section Verdicts
variable {s t : Severity}

theorem DefaultRule.verdict_again {r : DefaultRule} (h : r.verdict s = .report t) :
    r.verdict t = .report t := by
  cases r with
  | all => rfl
  | onlyErrors =>
    by_cases he : s = .error
    · simp only [DefaultRule.verdict, if_pos he] at h
      cases h
      simp [DefaultRule.verdict, he]
    · simp [DefaultRule.verdict, he] at h
  | asWarnings => cases h; rfl
  | ignore => cases h

theorem CodeRule.verdict_again {r : CodeRule} (h : r.verdict s = .report t) :
    r.verdict t = .report t := by
  cases r with
  | allow => rfl
  | asError => cases h; rfl
  | asWarning => cases h; rfl
  | ignore => cases h

/-- The same rule decides again, since an error or a warning becomes one of the two. -/
theorem FileRules.verdict_again {r : FileRules} {code : Code} (h : r.verdict code s = .report t) :
    r.verdict code t = .report t := by
  cases hs : s.informs with
  | true =>
    simp only [FileRules.verdict, hs, if_true] at h
    cases h
    simp [FileRules.verdict, hs]
  | false =>
    have ht := FileRules.rates_of_verdict hs h
    simp only [FileRules.verdict, hs, ht, Bool.false_eq_true, if_false] at h ⊢
    cases hc : r.codes.get? code with
    | none =>
      simp only [hc] at h
      exact DefaultRule.verdict_again h
    | some c =>
      simp only [hc] at h
      exact CodeRule.verdict_again h

end Verdicts

namespace ProjectRules
variable {rules : ProjectRules} {d d' : Diagnostic} {ds : List Diagnostic}

def Leaves (rules : ProjectRules) (d : Diagnostic) : Prop := rules.verdict d = .report d.severity

theorem Leaves.under (h : rules.Leaves d) : d.under (rules.verdict d) = some d := by
  rw [h]
  rfl

theorem leaves_of_under (h : d.under (rules.verdict d) = some d') : rules.Leaves d' := by
  have hr := Diagnostic.recast_of_under rules h
  cases hf : d.file with
  | none => exact rules.verdict_exempt (.inl (hr.file.trans hf))
  | some path =>
    cases hv : rules.verdict d with
    | ignore => simp [hv, Diagnostic.under] at h
    | report t =>
      simp only [hv, Diagnostic.under, Option.some.injEq] at h
      subst h
      rw [rules.verdict_rulesOf hf] at hv
      rw [Leaves, rules.verdict_rulesOf (hr.file.trans hf)]
      exact FileRules.verdict_again hv

theorem leaves_of_unruled {path : Text} (hf : d.file = some path) (hn : rules.get? path = none) :
    rules.Leaves d := by
  simp [Leaves, verdict, hf, hn]

end ProjectRules

def Summary.raisedCodes (sum : Summary) : SortedMap Text (SortedMap Code Nat) :=
  sum.mapValues fun _ t => t.raised

namespace Session
variable (rules : ProjectRules) (ds : List Diagnostic)

theorem mem_passAll {d' : Diagnostic} : d' ∈ ((start rules).passAll ds).1 ↔
    ∃ d ∈ ds, d.under (rules.verdict d) = some d' := by
  rw [passAll_kept]
  exact List.mem_filterMap

theorem kept_again : ((start rules).passAll ((start rules).passAll ds).1).1 =
    ((start rules).passAll ds).1 := by
  rw [passAll_kept]
  have hleave : ∀ d ∈ ((start rules).passAll ds).1, d.under (rules.verdict d) = some d := by
    intro d hd
    obtain ⟨e, -, he⟩ := (mem_passAll rules ds).1 hd
    exact (ProjectRules.leaves_of_under he).under
  exact (List.filterMap_congr hleave).trans List.filterMap_some

theorem raisedCount_again (path : Text) (c : Code) :
    rules.raisedCount ((start rules).passAll ds).1 path c = rules.raisedCount ds path c := by
  rw [← raisedAt_passAll, ← raisedAt_passAll, raisedAt_handed, raisedAt_handed, kept_again]

/-- A file of a diagnostic that is dropped has rules, so it does not go missing. -/
theorem covers_again {sum : Summary} :
    sum.Covers rules ((start rules).passAll ds).1 ↔ sum.Covers rules ds := by
  have hp (path : Text) : (rules.contains path = true ∨
      ∃ d ∈ ((start rules).passAll ds).1, d.file = some path) ↔
      (rules.contains path = true ∨ ∃ d ∈ ds, d.file = some path) := by
    constructor
    · rintro (hr | ⟨d', hd', hf⟩)
      · exact .inl hr
      · obtain ⟨d, hd, hu⟩ := (mem_passAll rules ds).1 hd'
        exact .inr ⟨d, hd, (Diagnostic.recast_of_under rules hu).file.symm.trans hf⟩
    · rintro (hr | ⟨d, hd, hf⟩)
      · exact .inl hr
      · cases hn : rules.get? path with
        | some r => exact .inl (by simp [SortedMap.contains, hn])
        | none =>
          have hu := (ProjectRules.leaves_of_unruled hf hn).under
          exact .inr ⟨d, (mem_passAll rules ds).2 ⟨d, hd, hu⟩, hf⟩
  simp only [Summary.Covers, hp]

theorem ignoredTotal_again :
    ((start rules).passAll ((start rules).passAll ds).1).2.report.ignoredTotal = 0 := by
  have h := length_passAll rules ((start rules).passAll ds).1
  rw [kept_again] at h
  omega

theorem raisedCodes_again :
    ((start rules).passAll ((start rules).passAll ds).1).2.report.raisedCodes =
      ((start rules).passAll ds).2.report.raisedCodes := by
  have h := accounts_passAll rules ds
  have h' := accounts_passAll rules ((start rules).passAll ds).1
  apply SortedMap.mapValues_congr
  · intro path
    rw [Bool.eq_iff_iff, h.paths, ((covers_again rules ds).1 h'.paths) path]
  · intro path t' t ht' ht
    apply SortedMap.ext_get?
    intro c
    rw [(h'.tally path t' ht').raised, (h.tally path t ht).raised, raisedCount_again]

end Session

namespace Chain

/-- Filtering twice by the same rules is filtering once. The second session keeps what it is shown
as it is and drops nothing, and it has the same files as the first one, with the same codes raised
in each. -/
theorem sieve_again (rules : ProjectRules) (ds : List Diagnostic) :
    let once := sieve [Session.start rules] ds
    let again := sieve [Session.start rules] once.1
    again.1 = once.1 ∧ again.2.map (·.report.ignoredTotal) = [0] ∧
      again.2.map (·.report.raisedCodes) = once.2.map (·.report.raisedCodes) := by
  simp only [sieve_single, List.map_cons, List.map_nil, Session.kept_again,
    Session.ignoredTotal_again, Session.raisedCodes_again, and_self]

/-- It takes a single session: here the second one makes a warning of what the first one, asked
again, drops. -/
example :
    let a := "/a".toList
    let d : Diagnostic := ⟨some a, none, none, 1, .error, []⟩
    let rules : List ProjectRules :=
      [.ofList [(a, ⟨.onlyErrors, .empty⟩)], .ofList [(a, ⟨.asWarnings, .empty⟩)]]
    let once := sieve (rules.map Session.start) [d]
    once.1 = [{ d with severity := .warning }] ∧
      (sieve (rules.map Session.start) once.1).1 = [] := by
  decide

end Chain
end Triage
