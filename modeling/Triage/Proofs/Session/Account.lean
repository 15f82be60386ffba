import Triage.Session

set_option autoImplicit false

/-!
What a session's summary says, told from its rules and the diagnostics it was shown. A session
counts as it goes and judges its rules only when asked, so the invariant `Summary.Tracks` speaks of
the counts alone, and `Summary.Accounts` of a summary with its rules judged. Rules and diagnostics
leave no choice in it (`Summary.Accounts.unique`).
-/

namespace Triage

/-- A count as a tally holds it: nothing is written down for zero. -/
def recorded (n : Nat) : Option Nat := if n = 0 then none else some n

namespace ProjectRules

def raisedCount (rules : ProjectRules) (seen : List Diagnostic) (path : Text) (c : Code) : Nat :=
  seen.countP fun d => d.file = some path ∧ d.code = c ∧ rules.verdict d ≠ .ignore

def ignoredCount (rules : ProjectRules) (seen : List Diagnostic) (path : Text) (c : Code) : Nat :=
  seen.countP fun d => d.file = some path ∧ d.code = c ∧ rules.verdict d = .ignore

end ProjectRules

structure Tally.Counts (rules : ProjectRules) (seen : List Diagnostic) (path : Text)
    (t : Tally) : Prop where
  raised : ∀ c, t.raised.get? c = recorded (rules.raisedCount seen path c)
  ignored : ∀ c, t.ignored.get? c = recorded (rules.ignoredCount seen path c)

/-- The counts are right, and the rules marked are those that dropped none of the diagnostics. -/
structure Tally.Accounts (rules : ProjectRules) (seen : List Diagnostic) (path : Text)
    (t : Tally) : Prop extends Tally.Counts rules seen path t where
  stale : ∀ c, t.stale.contains c = true ↔
    (∃ r, rules.get? path = some r ∧ r.codes.get? c = some .ignore) ∧
      ∀ d ∈ seen, d.file = some path → d.code = c → rules.verdict d ≠ .ignore
  staleDefault : t.staleDefault = true ↔
    (∃ r, rules.get? path = some r ∧ r.default = .ignore) ∧
      ∀ d ∈ seen, d.file = some path → rules.verdict d ≠ .ignore

def Summary.Covers (rules : ProjectRules) (seen : List Diagnostic) (sum : Summary) : Prop :=
  ∀ path, sum.contains path = true ↔
    rules.contains path = true ∨ ∃ d ∈ seen, d.file = some path

/-- The summary that rules and diagnostics call for. -/
structure Summary.Accounts (rules : ProjectRules) (seen : List Diagnostic)
    (sum : Summary) : Prop where
  paths : sum.Covers rules seen
  tally : ∀ path t, sum.get? path = some t → t.Accounts rules seen path

/-- What holds of a summary at any time: the marks of a file with rules may be out of date, those of
a file without are never set. -/
structure Summary.Tracks (rules : ProjectRules) (seen : List Diagnostic)
    (sum : Summary) : Prop where
  paths : sum.Covers rules seen
  counts : ∀ path t, sum.get? path = some t → t.Counts rules seen path
  unruled : ∀ path t, sum.get? path = some t → rules.get? path = none →
    t.stale = .empty ∧ t.staleDefault = false

structure Session.Tracks (rules : ProjectRules) (seen : List Diagnostic) (s : Session) : Prop where
  rules_eq : s.rules = rules
  summary : s.summary.Tracks rules seen

section Counting
variable {rules : ProjectRules} {seen : List Diagnostic} {path : Text} {t : Tally}

theorem get?_bump {m : SortedMap Code Nat} {f : Code → Nat} (h : ∀ c, m.get? c = recorded (f c))
    (k c : Code) :
    (Tally.bump m k).get? c = recorded (f c + if k = c then 1 else 0) := by
  by_cases hk : c = k
  · subst hk
    have hm := h c
    by_cases hf : f c = 0 <;> simp [Tally.bump, hm, recorded, hf]
  · have hk' : ¬ k = c := fun e => hk e.symm
    simp [Tally.bump, h, hk, hk']

theorem Tally.Counts.blank (h : ∀ d ∈ seen, d.file ≠ some path) :
    Tally.blank.Counts rules seen path := by
  have hr : ∀ c, rules.raisedCount seen path c = 0 := fun c =>
    List.countP_eq_zero.2 fun d hd => by simp [h d hd]
  have hi : ∀ c, rules.ignoredCount seen path c = 0 := fun c =>
    List.countP_eq_zero.2 fun d hd => by simp [h d hd]
  exact ⟨fun c => by simp [Tally.blank, hr, recorded], fun c => by simp [Tally.blank, hi, recorded]⟩

theorem raisedCount_concat (d : Diagnostic) (c : Code) :
    rules.raisedCount (seen ++ [d]) path c = rules.raisedCount seen path c +
      if d.file = some path ∧ d.code = c ∧ rules.verdict d ≠ .ignore then 1 else 0 := by
  simp [ProjectRules.raisedCount, List.countP_singleton]

theorem ignoredCount_concat (d : Diagnostic) (c : Code) :
    rules.ignoredCount (seen ++ [d]) path c = rules.ignoredCount seen path c +
      if d.file = some path ∧ d.code = c ∧ rules.verdict d = .ignore then 1 else 0 := by
  simp [ProjectRules.ignoredCount, List.countP_singleton]

theorem ignoredCount_eq_zero {c : Code} : rules.ignoredCount seen path c = 0 ↔
    ∀ d ∈ seen, d.file = some path → d.code = c → rules.verdict d ≠ .ignore := by
  simp [ProjectRules.ignoredCount]

theorem Tally.Counts.ignored_contains (h : t.Counts rules seen path) (c : Code) :
    t.ignored.contains c = false ↔
      ∀ d ∈ seen, d.file = some path → d.code = c → rules.verdict d ≠ .ignore := by
  rw [← ignoredCount_eq_zero, SortedMap.contains, h.ignored c]
  by_cases hz : rules.ignoredCount seen path c = 0 <;> simp [recorded, hz]

theorem Tally.Counts.ignored_isEmpty (h : t.Counts rules seen path) :
    t.ignored.isEmpty = true ↔
      ∀ d ∈ seen, d.file = some path → rules.verdict d ≠ .ignore := by
  rw [SortedMap.isEmpty_iff]
  have hc : ∀ c, t.ignored.get? c = none ↔ t.ignored.contains c = false := fun c => by
    simp [SortedMap.contains]
  simp only [hc, h.ignored_contains]
  constructor
  · intro hd d hm hf
    exact hd d.code d hm hf rfl
  · intro hd c d hm hf _
    exact hd d hm hf

theorem Tally.Counts.judge (h : t.Counts rules seen path) {r : FileRules}
    (hr : rules.get? path = some r) : (Session.judge r t).Accounts rules seen path := by
  refine ⟨⟨h.raised, h.ignored⟩, fun c => ?_, ?_⟩
  · rw [← h.ignored_contains c]
    have hk := r.contains_ignoredCodes c
    simp only [Session.judge, SortedMap.contains_filter, Bool.and_eq_true, hk, Bool.not_eq_true',
      hr, Option.some.injEq, exists_eq_left']
  · rw [← h.ignored_isEmpty]
    simp [Session.judge, hr]

theorem Tally.Counts.unruled (h : t.Counts rules seen path) (hr : rules.get? path = none)
    (hs : t.stale = .empty ∧ t.staleDefault = false) : t.Accounts rules seen path := by
  refine ⟨h, fun c => ?_, ?_⟩
  · simp [hs, hr, SortedMap.contains]
  · simp [hs, hr]

theorem Tally.Accounts.stale_iff (h : t.Accounts rules seen path) {r : FileRules}
    (hr : rules.get? path = some r) (c : Code) :
    t.stale.contains c = true ↔ r.codes.get? c = some .ignore ∧
      ∀ d ∈ seen, d.file = some path → d.code = c → rules.verdict d ≠ .ignore := by
  simp only [h.stale c, hr, Option.some.injEq, exists_eq_left']

theorem Tally.Accounts.staleDefault_iff (h : t.Accounts rules seen path) {r : FileRules}
    (hr : rules.get? path = some r) :
    t.staleDefault = true ↔ r.default = .ignore ∧
      ∀ d ∈ seen, d.file = some path → rules.verdict d ≠ .ignore := by
  simp only [h.staleDefault, hr, Option.some.injEq, exists_eq_left']

theorem Tally.Accounts.unique {t' : Tally} (h : t.Accounts rules seen path)
    (h' : t'.Accounts rules seen path) : t = t' := by
  have hr : t.raised = t'.raised := SortedMap.ext_get? fun c => by rw [h.raised, h'.raised]
  have hi : t.ignored = t'.ignored := SortedMap.ext_get? fun c => by rw [h.ignored, h'.ignored]
  have hs : t.stale = t'.stale := by
    apply SortedMap.ext_contains
    · intro c
      exact Bool.eq_iff_iff.2 ((h.stale c).trans (h'.stale c).symm)
    · intros
      rfl
  have hd : t.staleDefault = t'.staleDefault :=
    Bool.eq_iff_iff.2 (h.staleDefault.trans h'.staleDefault.symm)
  cases t
  cases t'
  simp_all

@[simp] theorem Tally.stale_count (v : Verdict) (c : Code) (t : Tally) :
    (Tally.count v c t).stale = t.stale := by cases v <;> rfl

@[simp] theorem Tally.staleDefault_count (v : Verdict) (c : Code) (t : Tally) :
    (Tally.count v c t).staleDefault = t.staleDefault := by cases v <;> rfl

theorem Tally.Counts.count (h : t.Counts rules seen path) {d : Diagnostic}
    (hd : d.file = some path) :
    (Tally.count (rules.verdict d) d.code t).Counts rules (seen ++ [d]) path := by
  cases hv : rules.verdict d with
  | report s =>
    constructor
    · intro c
      have hb := get?_bump h.raised d.code c
      simpa [Tally.count, Tally.raise, raisedCount_concat, hd, hv] using hb
    · intro c
      simpa [Tally.count, Tally.raise, ignoredCount_concat, hv] using h.ignored c
  | ignore =>
    constructor
    · intro c
      simpa [Tally.count, Tally.ignore, raisedCount_concat, hv] using h.raised c
    · intro c
      have hb := get?_bump h.ignored d.code c
      simpa [Tally.count, Tally.ignore, ignoredCount_concat, hd, hv] using hb

theorem Tally.Counts.other (h : t.Counts rules seen path) {d : Diagnostic}
    (hd : d.file ≠ some path) : t.Counts rules (seen ++ [d]) path := by
  constructor
  · intro c
    simpa [raisedCount_concat, hd] using h.raised c
  · intro c
    simpa [ignoredCount_concat, hd] using h.ignored c

end Counting

namespace Summary
variable {rules : ProjectRules} {seen : List Diagnostic} {sum : Summary}

@[simp] theorem get?_update (s : Summary) (path i : Text) (f : Tally → Tally) :
    (s.update path f).get? i =
      if i = path then some (f ((s.get? path).getD .blank)) else s.get? i := by
  simp [update]

theorem get?_foldl_update {μ : Type} (m : SortedMap Text μ) (f : μ → Tally → Tally) (s : Summary)
    (i : Text) :
    (m.entries.foldl (fun s e => s.update e.1 (f e.2)) s).get? i =
      ((m.get? i).map fun r => f r ((s.get? i).getD .blank)).or (s.get? i) := by
  obtain ⟨l, hl⟩ := m
  have hm : SortedMap.get? ⟨l, hl⟩ i = SortedMap.find i l := rfl
  rw [hm]
  clear hm
  induction l generalizing s with
  | nil => rfl
  | cons a l ih =>
    obtain ⟨k, v⟩ := a
    obtain ⟨hk, hl⟩ := List.pairwise_cons.1 hl
    rw [List.foldl_cons, ih _ hl]
    by_cases hi : i = k
    · subst hi
      have hn : SortedMap.find i l = none := SortedMap.find_eq_none hk
      simp [SortedMap.find, hn]
    · simp [SortedMap.find, hi]

theorem Covers.counts_getD (h : sum.Covers rules seen)
    (hc : ∀ path t, sum.get? path = some t → t.Counts rules seen path) (path : Text) :
    ((sum.get? path).getD .blank).Counts rules seen path := by
  cases ht : sum.get? path with
  | some t => exact hc path t ht
  | none =>
    apply Tally.Counts.blank
    intro d hd hf
    have hp := (h path).2 (Or.inr ⟨d, hd, hf⟩)
    simp [SortedMap.contains, ht] at hp

theorem Tracks.counts_getD (h : sum.Tracks rules seen) (path : Text) :
    ((sum.get? path).getD .blank).Counts rules seen path :=
  h.paths.counts_getD h.counts path

theorem Accounts.counts_getD (h : sum.Accounts rules seen) (path : Text) :
    ((sum.get? path).getD .blank).Counts rules seen path :=
  h.paths.counts_getD (fun path t ht => (h.tally path t ht).toCounts) path

theorem Tracks.unruled_getD (h : sum.Tracks rules seen) {path : Text}
    (hn : rules.get? path = none) :
    ((sum.get? path).getD .blank).stale = .empty ∧
      ((sum.get? path).getD .blank).staleDefault = false := by
  cases ht : sum.get? path with
  | some t => exact h.unruled path t ht hn
  | none => exact ⟨rfl, rfl⟩

theorem Accounts.unique {sum' : Summary} (h : sum.Accounts rules seen)
    (h' : sum'.Accounts rules seen) : sum = sum' := by
  apply SortedMap.ext_contains
  · intro path
    exact Bool.eq_iff_iff.2 ((h.paths path).trans (h'.paths path).symm)
  · intro path t t' ht ht'
    exact (h.tally path t ht).unique (h'.tally path t' ht')

end Summary

namespace Session
variable {rules : ProjectRules} {seen : List Diagnostic} {s : Session}

theorem pass_verdict (s : Session) (d : Diagnostic) : (s.pass d).1 = s.rules.verdict d := by
  unfold pass
  cases d.file <;> rfl

theorem pass_rules (s : Session) (d : Diagnostic) : (s.pass d).2.rules = s.rules := by
  unfold pass
  cases d.file <;> rfl

theorem pass_none (s : Session) {d : Diagnostic} (h : d.file = none) : (s.pass d).2 = s := by
  simp [pass, h]

theorem pass_some (s : Session) {d : Diagnostic} {path : Text} (h : d.file = some path) :
    (s.pass d).2 =
      { s with summary := s.summary.update path (Tally.count (s.rules.verdict d) d.code) } := by
  simp [pass, h]

theorem get?_start (rules : ProjectRules) (path : Text) :
    (start rules).summary.get? path = (rules.get? path).map fun _ => .blank := by
  have h := Summary.get?_foldl_update rules (fun _ => id) .empty path
  simp only [start, SortedMap.keys, List.foldl_map]
  simpa using h

theorem get?_settle (s : Session) (path : Text) :
    s.settle.summary.get? path =
      ((s.rules.get? path).map fun r => judge r ((s.summary.get? path).getD .blank)).or
        (s.summary.get? path) :=
  Summary.get?_foldl_update s.rules judge s.summary path

theorem Tracks.start (rules : ProjectRules) : (start rules).Tracks rules [] := by
  refine ⟨rfl, ?_, ?_, ?_⟩
  · intro path
    simp [SortedMap.contains, get?_start]
  · intro path t ht
    rw [get?_start] at ht
    obtain ⟨r, hr, rfl⟩ := Option.map_eq_some_iff.1 ht
    exact Tally.Counts.blank (by simp)
  · intro path t ht hn
    simp [get?_start, hn] at ht

theorem Tracks.pass (h : s.Tracks rules seen) (d : Diagnostic) :
    (s.pass d).2.Tracks rules (seen ++ [d]) := by
  obtain ⟨rfl, h⟩ := h
  refine ⟨pass_rules s d, ?_⟩
  cases hd : d.file with
  | none =>
    rw [pass_none s hd]
    constructor
    · intro path
      simp [h.paths path, hd]
    · intro path t ht
      exact (h.counts path t ht).other (by simp [hd])
    · exact h.unruled
  | some file =>
    rw [pass_some s hd]
    constructor
    · intro path
      have hp := h.paths path
      by_cases he : path = file
      · simp [SortedMap.contains, he, hd]
      · have he' : ¬ file = path := fun e => he e.symm
        simpa [SortedMap.contains, he, he', hd] using hp
    · intro path t ht
      by_cases he : path = file
      · subst he
        simp at ht
        rw [← ht]
        exact (h.counts_getD path).count hd
      · simp [he] at ht
        exact (h.counts path t ht).other (by simp [hd, Ne.symm he])
    · intro path t ht hn
      by_cases he : path = file
      · subst he
        simp at ht
        rw [← ht]
        simpa using h.unruled_getD hn
      · simp [he] at ht
        exact h.unruled path t ht hn

theorem Tracks.settle (h : s.Tracks rules seen) : s.settle.Tracks rules seen := by
  obtain ⟨rfl, h⟩ := h
  refine ⟨rfl, ?_, ?_, ?_⟩
  · intro path
    rw [← h.paths path]
    cases hr : s.rules.get? path with
    | none => simp [SortedMap.contains, get?_settle, hr]
    | some r =>
      have hc := (h.paths path).2 (Or.inl (by simp [SortedMap.contains, hr]))
      simp [SortedMap.contains, get?_settle, hr] at hc ⊢
      exact hc
  · intro path t ht
    rw [get?_settle] at ht
    cases hr : s.rules.get? path with
    | none => exact h.counts path t (by simpa [hr] using ht)
    | some r =>
      have hc := h.counts_getD path
      simp [hr] at ht
      rw [← ht]
      exact ⟨hc.raised, hc.ignored⟩
  · intro path t ht hn
    rw [get?_settle, hn] at ht
    exact h.unruled path t (by simpa using ht) hn

theorem Tracks.report (h : s.Tracks rules seen) : s.report.Accounts rules seen := by
  have hs := h.settle.summary
  obtain ⟨rfl, h⟩ := h
  refine ⟨hs.paths, fun path t ht => ?_⟩
  cases hr : s.rules.get? path with
  | none => exact (hs.counts path t ht).unruled hr (hs.unruled path t ht hr)
  | some r =>
    have hc := h.counts_getD path
    rw [Session.report, get?_settle, hr] at ht
    simp only [Option.map_some, Option.some_or, Option.some.injEq] at ht
    rw [← ht]
    exact hc.judge hr

end Session

end Triage
