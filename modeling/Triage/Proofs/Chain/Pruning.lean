import Triage.Proofs.Chain.Agreement
import Triage.Proofs.SortedMap

set_option autoImplicit false

/-!
Rules that a summary marks as stale can all be taken out at once. A marked rule dropped none of the
diagnostics that reached its session, so the rules without it give every one of them the verdict it
had (`AgreeOn`), and sessions with the same verdicts count the same and hand on the same list.
-/

namespace Triage

/-- The rules of a file without those marked in its tally. -/
def FileRules.prune (r : FileRules) (t : Tally) : FileRules where
  default := if t.staleDefault then .all else r.default
  codes := r.codes.filter fun c _ => !t.stale.contains c

def ProjectRules.prune (rules : ProjectRules) (sum : Summary) : ProjectRules :=
  rules.mapValues fun path r => r.prune ((sum.get? path).getD .blank)

def Summary.counts (sum : Summary) : SortedMap Text (SortedMap Code Nat × SortedMap Code Nat) :=
  sum.mapValues fun _ t => (t.raised, t.ignored)

section Agreement
variable {rules rules' : ProjectRules} {ds : List Diagnostic}

theorem counts_of_agree {sum sum' : Summary} (h : rules.AgreeOn rules' ds)
    (hp : ∀ path, rules'.contains path = rules.contains path)
    (ha : sum.Accounts rules ds) (ha' : sum'.Accounts rules' ds) : sum'.counts = sum.counts := by
  apply SortedMap.mapValues_congr
  · intro path
    rw [Bool.eq_iff_iff, ha'.paths, ha.paths, hp]
  · intro path t' t ht' ht
    have hr : t'.raised = t.raised := SortedMap.ext_get? fun c => by
      rw [(ha'.tally path t' ht').raised, (ha.tally path t ht).raised, raisedCount_of_agree h]
    have hi : t'.ignored = t.ignored := SortedMap.ext_get? fun c => by
      rw [(ha'.tally path t' ht').ignored, (ha.tally path t ht).ignored, ignoredCount_of_agree h]
    rw [hr, hi]

end Agreement

section Staleness
variable {rules : ProjectRules} {ds : List Diagnostic} {sum : Summary}

theorem contains_prune (rules : ProjectRules) (sum : Summary) (path : Text) :
    (rules.prune sum).contains path = rules.contains path := by
  simp [ProjectRules.prune, SortedMap.contains]

theorem get?_codes_prune (r : FileRules) (t : Tally) (c : Code) :
    (r.prune t).codes.get? c = if t.stale.contains c then none else r.codes.get? c := by
  cases hs : t.stale.contains c <;> cases hc : r.codes.get? c <;>
    simp [FileRules.prune, hs, hc, Option.filter]

/-- A rule that is gone would have dropped the diagnostic. The cases follow the order in which rules
are tried, since a marked code rule shadows the default that takes its place. -/
theorem verdict_prune {r : FileRules} {t : Tally} {code : Code} {severity : Severity}
    (hc : t.stale.contains code = true → r.codes.get? code = some .ignore)
    (hd : t.staleDefault = true → r.default = .ignore)
    (hv : r.verdict code severity = .ignore →
      t.stale.contains code = false ∧ t.staleDefault = false) :
    (r.prune t).verdict code severity = r.verdict code severity := by
  unfold FileRules.verdict at *
  by_cases hi : severity.informs = true
  · simp [hi]
  · rw [if_neg hi, if_neg hi, get?_codes_prune]
    rw [if_neg hi] at hv
    by_cases hs : t.stale.contains code = true
    · have hk := hc hs
      simp [hk, CodeRule.verdict, hs] at hv
    · rw [if_neg hs]
      cases hk : r.codes.get? code with
      | some k => rfl
      | none =>
        by_cases ht : t.staleDefault = true
        · have hdef := hd ht
          simp [hk, hdef, DefaultRule.verdict, ht] at hv
        · simp [FileRules.prune, ht]

theorem agreeOn_prune (h : sum.Accounts rules ds) : rules.AgreeOn (rules.prune sum) ds := by
  intro d hd
  cases hf : d.file with
  | none => simp [ProjectRules.verdict, hf]
  | some path =>
    cases hr : rules.get? path with
    | none => simp [ProjectRules.verdict, ProjectRules.prune, hf, hr]
    | some r =>
      -- the file of a diagnostic that was seen has a tally, so its rules were judged by it
      have hp := (h.paths path).2 (Or.inr ⟨d, hd, hf⟩)
      obtain ⟨t, ht⟩ := Option.isSome_iff_exists.1 hp
      have ha := h.tally path t ht
      have hv : rules.verdict d = r.verdict d.code d.severity := by
        simp [ProjectRules.verdict, hf, hr]
      have hv' : (rules.prune sum).verdict d = (r.prune t).verdict d.code d.severity := by
        simp [ProjectRules.verdict, ProjectRules.prune, hf, hr, ht]
      rw [hv, hv']
      apply verdict_prune
      · intro hs
        exact ((ha.stale_iff hr d.code).1 hs).1
      · intro hs
        exact ((ha.staleDefault_iff hr).1 hs).1
      · intro hi
        rw [← hv] at hi
        constructor
        · rw [Bool.eq_false_iff]
          intro hs
          exact ((ha.stale_iff hr d.code).1 hs).2 d hd hf rfl hi
        · rw [Bool.eq_false_iff]
          intro hs
          exact ((ha.staleDefault_iff hr).1 hs).2 d hd hf hi

theorem exists_of_get?_prune (h : sum.Accounts rules ds) {path : Text} {r' : FileRules}
    (hr' : (rules.prune sum).get? path = some r') :
    ∃ r t, rules.get? path = some r ∧ sum.get? path = some t ∧ r' = r.prune t := by
  rw [ProjectRules.prune, SortedMap.get?_mapValues] at hr'
  obtain ⟨r, hr, rfl⟩ := Option.map_eq_some_iff.1 hr'
  have hp := (h.paths path).2 (Or.inl (by simp [SortedMap.contains, hr]))
  obtain ⟨t, ht⟩ := Option.isSome_iff_exists.1 hp
  exact ⟨r, t, hr, ht, by simp [ht]⟩

variable {path : Text} {t' : Tally}

theorem stale_prune (h : sum.Accounts rules ds) (ht' : t'.Accounts (rules.prune sum) ds path)
    (c : Code) : t'.stale.contains c ≠ true := by
  intro hc
  obtain ⟨⟨r', hr', hk⟩, hn⟩ := (ht'.stale c).1 hc
  obtain ⟨r, t, hr, ht, rfl⟩ := exists_of_get?_prune h hr'
  rw [get?_codes_prune] at hk
  have hs : t.stale.contains c ≠ true := fun e => by simp [e] at hk
  apply hs
  rw [if_neg hs] at hk
  refine ((h.tally path t ht).stale_iff hr c).2 ⟨hk, fun d hd hf hcode => ?_⟩
  rw [← agreeOn_prune h d hd]
  exact hn d hd hf hcode

theorem staleDefault_prune (h : sum.Accounts rules ds)
    (ht' : t'.Accounts (rules.prune sum) ds path) : t'.staleDefault ≠ true := by
  intro hc
  obtain ⟨⟨r', hr', hk⟩, hn⟩ := ht'.staleDefault.1 hc
  obtain ⟨r, t, hr, ht, rfl⟩ := exists_of_get?_prune h hr'
  have hs : t.staleDefault ≠ true := fun e => by simp [FileRules.prune, e] at hk
  apply hs
  simp only [FileRules.prune, hs] at hk
  refine ((h.tally path t ht).staleDefault_iff hr).2 ⟨hk, fun d hd hf => ?_⟩
  rw [← agreeOn_prune h d hd]
  exact hn d hd hf

theorem staleTotal_prune {sum' : Summary} (h : sum.Accounts rules ds)
    (h' : sum'.Accounts (rules.prune sum) ds) : sum'.staleTotal = 0 := by
  apply total_eq_zero
  intro t' hv
  obtain ⟨⟨path, _⟩, he, rfl⟩ := List.mem_map.1 hv
  have ht' := h'.tally path _ (SortedMap.get?_eq_some_iff.2 he)
  exact Tally.staleTotal_eq_zero (stale_prune h ht') (staleDefault_prune h ht')

end Staleness

namespace Chain

theorem passAll_prune (rules : ProjectRules) (ds : List Diagnostic) :
    let s := ((Session.start rules).passAll ds).2
    let s' := ((Session.start (rules.prune s.report)).passAll ds).2
    ((Session.start (rules.prune s.report)).passAll ds).1 = ((Session.start rules).passAll ds).1 ∧
      s'.report.counts = s.report.counts ∧ s'.report.staleTotal = 0 := by
  intro s s'
  have ha : s.report.Accounts rules ds := Session.accounts_passAll rules ds
  have ha' : s'.report.Accounts (rules.prune s.report) ds :=
    Session.accounts_passAll (rules.prune s.report) ds
  have hag := agreeOn_prune ha
  exact ⟨kept_of_agree hag, counts_of_agree hag (contains_prune rules s.report) ha ha',
    staleTotal_prune ha ha'⟩

def pruned (projects : List ProjectRules) (chain : Chain) : Chain :=
  List.zipWith (fun rules s => Session.start (rules.prune s.report)) projects chain

theorem stages_prune (projects : List ProjectRules) (ds : List Diagnostic) :
    let run := stages (projects.map Session.start) ds
    let rerun := stages (pruned projects run.2) ds
    rerun.1 = run.1 ∧
      rerun.2.map (fun s => s.report.counts) = run.2.map (fun s => s.report.counts) ∧
      ∀ s ∈ rerun.2, s.report.staleTotal = 0 := by
  induction projects generalizing ds with
  | nil => simp [stages, pruned]
  | cons rules projects ih =>
    obtain ⟨hk, hc, hz⟩ := passAll_prune rules ds
    obtain ⟨ihk, ihc, ihz⟩ := ih ((Session.start rules).passAll ds).1
    simp only [List.map_cons, stages, pruned, List.zipWith_cons_cons] at *
    rw [hk]
    refine ⟨ihk, ?_, ?_⟩
    · rw [hc, ihc]
    · intro s hs
      rcases List.mem_cons.1 hs with rfl | hs
      · exact hz
      · exact ihz s hs

/-- All stale rules of all sessions can go at once: the chain over what is left keeps the same list
and counts the same for every file, and no rule of it is stale. -/
theorem sieve_pruned (projects : List ProjectRules) (ds : List Diagnostic) :
    let run := sieve (projects.map Session.start) ds
    let rerun := sieve (pruned projects run.2) ds
    rerun.1 = run.1 ∧
      rerun.2.map (fun s => s.report.counts) = run.2.map (fun s => s.report.counts) ∧
      ∀ s ∈ rerun.2, s.report.staleTotal = 0 := by
  simp only [sieve_stages]
  exact stages_prune projects ds

end Chain
end Triage
