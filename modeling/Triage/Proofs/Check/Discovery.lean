import Triage.Proofs.Chain.Agreement
import Triage.Proofs.Check.Course
import Triage.Proofs.SortedMap

set_option autoImplicit false

/-!
What a check gains from listing the files of a project. The rules of files with diagnostics are
asked for in any case, so the verdicts stay (`agreeOn_among`), and with them all that is kept and
counted. A file that is only listed has nothing but its rules to show, none of them used
(`FileRules.unused`).
-/

namespace Triage

/-- The tally of a file with rules and without diagnostics. -/
def FileRules.unused (r : FileRules) : Tally :=
  ⟨.empty, .empty, r.ignoredCodes, r.default = .ignore⟩

/-- What rules given in advance answer to a query. -/
def ProjectRules.among (rules : ProjectRules) (files : SortedSet Text) : ProjectRules :=
  rules.filter fun path _ => files.contains path

/-- What was printed differs by the ends of the standard output. -/
structure Printed.DifferBy (p q : Printed) (s t : Text) : Prop where
  exit : p.exit = q.exit
  stderr : p.stderr = q.stderr
  stdout : ∃ front, p.stdout = front ++ s ∧ q.stdout = front ++ t

section Rules
variable {rules : ProjectRules} {ds : List Diagnostic} {path : Text} {r : FileRules}
  {files : SortedSet Text}

theorem FileRules.unused_accounts (hr : rules.get? path = some r)
    (hn : ∀ d ∈ ds, d.file ≠ some path) : r.unused.Accounts rules ds path := by
  have hb : Tally.blank.Counts rules ds path := .blank hn
  refine ⟨⟨hb.raised, hb.ignored⟩, fun c => ?_, ?_⟩
  · have hd : ∀ d ∈ ds, d.file = some path → d.code = c → rules.verdict d ≠ .ignore :=
      fun d hd hf => absurd hf (hn d hd)
    simp only [unused, r.contains_ignoredCodes, hr, Option.some.injEq, exists_eq_left',
      and_iff_left hd]
  · have hd : ∀ d ∈ ds, d.file = some path → rules.verdict d ≠ .ignore :=
      fun d hd hf => absurd hf (hn d hd)
    simp only [unused, decide_eq_true_eq, hr, Option.some.injEq, exists_eq_left', and_iff_left hd]

/-- A summary has nothing but their rules to say of files without diagnostics. -/
theorem Summary.Accounts.get?_silent {sum : Summary} (h : sum.Accounts rules ds)
    (hn : ∀ d ∈ ds, d.file ≠ some path) :
    sum.get? path = (rules.get? path).map FileRules.unused := by
  have hp : sum.contains path = rules.contains path := by
    rw [Bool.eq_iff_iff, h.paths, or_iff_left]
    rintro ⟨d, hd, hf⟩
    exact hn d hd hf
  cases hr : rules.get? path with
  | none => simpa [SortedMap.contains, hr] using hp
  | some r =>
    obtain ⟨t, ht⟩ := Option.isSome_iff_exists.1 (hp.trans (by simp [SortedMap.contains, hr]))
    rw [ht, (h.tally path t ht).unique (FileRules.unused_accounts hr hn)]
    rfl

theorem get?_among (rules : ProjectRules) (files : SortedSet Text) (path : Text) :
    (rules.among files).get? path = if files.contains path then rules.get? path else none := by
  rw [ProjectRules.among, SortedMap.get?_filter]
  cases rules.get? path <;> cases files.contains path <;> rfl

end Rules

namespace Check
open CommandLine
variable {rules : ProjectRules} {ds : List Diagnostic} {path : Text} {files : SortedSet Text}

theorem contains_known : (known ds files).contains path = true ↔
    (∃ d ∈ ds, d.file = some path) ∨ files.contains path = true := by
  simp [known, SortedMap.contains_addAll, SortedMap.contains_ofList, SortedMap.mem_keys]

theorem sift_eq (rules : ProjectRules) (ds : List Diagnostic) :
    sift rules ds = (((Session.start rules).passAll ds).1,
      ((Session.start rules).passAll ds).2.report) := by
  rw [sift, Chain.sieve_single]
  rfl

theorem sift_accounts (rules : ProjectRules) (ds : List Diagnostic) :
    (sift rules ds).2.Accounts rules ds := by
  rw [sift_eq]
  exact Session.accounts_passAll rules ds

theorem agreeOn_among (rules : ProjectRules) (ds : List Diagnostic) (files : SortedSet Text) :
    (rules.among (known ds files)).AgreeOn (rules.among (known ds .empty)) ds := by
  apply ProjectRules.agreeOn_of_get?
  intro d hd path hf
  have hk (files : SortedSet Text) : (known ds files).contains path = true :=
    contains_known.2 (.inl ⟨d, hd, hf⟩)
  simp only [get?_among, hk]

/-- Findings with files listed against those without. The same is kept, and every file with a
diagnostic has the same tally. Of the others the first have an unused tally for each listed file
with rules, the second have none. -/
structure Widens (rules : ProjectRules) (ds : List Diagnostic) (files : SortedSet Text)
    (f g : Findings) : Prop where
  kept : f.kept = g.kept
  catalog : f.catalog = g.catalog
  noted : ∀ path, (∃ d ∈ ds, d.file = some path) →
    ∃ t, f.summary.get? path = some t ∧ g.summary.get? path = some t
  silent : ∀ path, (∀ d ∈ ds, d.file ≠ some path) →
    f.summary.get? path = ((rules.among files).get? path).map FileRules.unused ∧
      g.summary.get? path = none

theorem conclude_widens (rules : ProjectRules) (ds : List Diagnostic)
    (messages : Option MessageTable) (files : SortedSet Text) :
    Widens rules ds files (conclude ds messages files (rules.among (known ds files)))
      (conclude ds messages .empty (rules.among (known ds .empty))) := by
  have ha := agreeOn_among rules ds files
  have hf := sift_accounts (rules.among (known ds files)) ds
  have hg := sift_accounts (rules.among (known ds .empty)) ds
  constructor
  · simp only [conclude, sift_eq]
    exact (kept_of_agree ha).symm
  · rfl
  · intro path hd
    have hk (files : SortedSet Text) : (known ds files).contains path = true :=
      contains_known.2 (.inl hd)
    obtain ⟨t, ht⟩ := Option.isSome_iff_exists.1 ((hf.paths path).2 (.inr hd))
    obtain ⟨t', ht'⟩ := Option.isSome_iff_exists.1 ((hg.paths path).2 (.inr hd))
    have hr : (rules.among (known ds .empty)).get? path =
        (rules.among (known ds files)).get? path := by
      simp only [get?_among, hk]
    have he := (hf.tally path t ht).of_agree ha hr
    exact ⟨t, ht, by rw [he.unique (hg.tally path t' ht')]; exact ht'⟩
  · intro path hn
    have hk (files : SortedSet Text) : (known ds files).contains path = files.contains path := by
      rw [Bool.eq_iff_iff, contains_known, or_iff_right]
      rintro ⟨d, hd, hf⟩
      exact hn d hd hf
    constructor
    · rw [conclude, hf.get?_silent hn, get?_among, get?_among, hk]
    · rw [conclude, hg.get?_silent hn, get?_among, hk]
      rfl

theorem print_differBy {f g : Findings} (h : f.kept = g.kept) (args : CheckArgs)
    (settings : Settings) (dir : Text) (colour : Bool) :
    (print args settings dir colour f).DifferBy (print args settings dir colour g)
      (summaryText (args.summaryMode settings) dir colour f)
      (summaryText (args.summaryMode settings) dir colour g) := by
  unfold print
  rw [h]
  by_cases hk : g.kept = []
  · simp only [if_pos hk]
    exact ⟨rfl, rfl, [], rfl, rfl⟩
  · simp only [if_neg hk]
    by_cases hl : args.logging settings = true
    · simp only [if_pos hl]
      exact ⟨rfl, rfl, _, rfl, rfl⟩
    · simp only [if_neg hl]
      by_cases hm : args.summaryMode settings = .json
      · simp only [if_pos hm]
        exact ⟨rfl, rfl, [], rfl, rfl⟩
      · simp only [if_neg hm]
        exact ⟨rfl, rfl, _, rfl, rfl⟩

section Discovery
variable {args : CheckArgs} {settings : Settings} {dir : Text} {w w' : World}
  {messages : Option MessageTable}

theorem finds_fixed (rules : ProjectRules) {w₁ : World}
    (hr : Reads args settings dir w ds messages w₁) (hl : Lists args settings dir w₁ files w') :
    Finds args settings dir (.fixed rules) w
      (conclude ds messages files (rules.among (known ds files))) w' :=
  .intro hr hl (Attempt.reaches_pure.2 ⟨rfl, rfl⟩)

/-- A check that lists the files of a project and the same one without the listing both fail alike,
or the first has more to show in its summary, for listed files with rules and without diagnostics,
and is like the second in all else. A listing that fails makes no difference. -/
theorem run_discovery (rules : ProjectRules) (colour : Bool) {x y : Bool}
    (hoff : { args with noDiscover := x }.discovers { settings with sources.discover := y } =
      false) :
    let off := { args with noDiscover := x }
    let plain := { settings with sources.discover := y }
    let p := ((run args settings dir colour (.fixed rules)).run w).value
    let q := ((run off plain dir colour (.fixed rules)).run w).value
    (∃ e, p = .error e ∧ q = .error e) ∨
    ∃ ds messages w₁ files w₂ f g, Reads args settings dir w ds messages w₁ ∧
      Lists args settings dir w₁ files w₂ ∧
      Finds args settings dir (.fixed rules) w f w₂ ∧ Finds off plain dir (.fixed rules) w g w₁ ∧
      p = .ok (print args settings dir colour f) ∧ q = .ok (print off plain dir colour g) ∧
      Widens rules ds files f g ∧
      (print args settings dir colour f).DifferBy (print off plain dir colour g)
        (summaryText (args.summaryMode settings) dir colour f)
        (summaryText (args.summaryMode settings) dir colour g) ∧
      ∀ e, (listing settings dir).Stops w₁ e → p = q := by
  intro off plain p q
  rcases fails_or_finds args settings dir (.fixed rules) w with ⟨e, h⟩ | ⟨_, _, h⟩
  · -- rules given in advance do not fail, and all that can comes before the listing
    refine .inl ⟨e, h.run colour, ?_⟩
    have h' : Fails off plain dir (.fixed rules) w e := by
      cases h with
      | input h => exact .input h
      | table hd h => exact .table hd h
      | rules hr hl h => exact absurd h Attempt.not_stops_pure
    exact h'.run colour
  · cases h with
    | @intro ds messages files _ w₁ w₂ _ hr hl _ =>
      have hf := finds_fixed rules hr hl
      have hg : Finds off plain dir (.fixed rules) w _ w₁ := finds_fixed rules hr (.off hoff)
      have hw := conclude_widens rules ds messages files
      refine .inr ⟨ds, messages, w₁, files, w₂, _, _, hr, hl, hf, hg, (hf.run colour).1,
        (hg.run colour).1, hw, print_differBy hw.kept args settings dir colour, fun e he => ?_⟩
      obtain rfl := hl.eq_empty he
      exact (hf.run colour).1.trans (hg.run colour).1.symm

/-- Of three files with rules one has a diagnostic, one is listed, and one is neither. -/
theorem run_discovery_mixed :
    let b := "/b.ts".toList
    let rules : ProjectRules := .ofList [("/a.ts".toList, ⟨.ignore, .empty⟩),
      (b, ⟨.ignore, .ofList [(7, .ignore), (8, .allow)]⟩), ("/c.ts".toList, ⟨.ignore, .empty⟩)]
    let w : World := ⟨.empty, Utf8.encode "a.ts(1,2): error TS7: m.\n".toList, .ok ['/'],
      fun tree _ => .ok ⟨⟨some 0, Utf8.encode "a.ts\x00b.ts\x00".toList, []⟩, tree, []⟩⟩
    let on : CheckArgs := ⟨none, none, none, false, false, false, false, true, none, false, []⟩
    let off := { on with noDiscover := true }
    let outcome (args : CheckArgs) := ((run args .default ['/'] false (.fixed rules)).run w).value
    off.discovers .default = false ∧ ∃ f g,
      outcome on = .ok (print on .default ['/'] false f) ∧
      outcome off = .ok (print off .default ['/'] false g) ∧ f.kept = g.kept ∧
      f.summary.get? b = some ⟨.empty, .empty, SortedSet.ofList [7], true⟩ ∧
      g.summary.get? b = none := by
  intro b rules w on off outcome
  have hoff : off.discovers .default = false := by decide
  have hv : ((findings on .default ['/'] (.fixed rules)).run w).value.map
      (fun f => f.summary.get? b) = .ok (some ⟨.empty, .empty, SortedSet.ofList [7], true⟩) := by
    decide
  have hv' : ((findings off .default ['/'] (.fixed rules)).run w).value.map
      (fun g => g.summary.get? b) = .ok none := by
    decide
  have h : (∃ e, outcome on = .error e ∧ outcome off = .error e) ∨ _ :=
    run_discovery rules false hoff
  rcases h with ⟨e, he, -⟩ | ⟨_, _, _, _, _, f, g, -, -, hf, hg, hp, hq, hw, -, -⟩
  · have ho : (outcome on).isOk = true := by decide
    rw [he] at ho
    cases ho
  · have hg : ((findings off .default ['/'] (.fixed rules)).run w).value = .ok g :=
      (reaches_iff.2 hg).1
    rw [(reaches_iff.2 hf).1] at hv
    rw [hg] at hv'
    exact ⟨hoff, f, g, hp, hq, hw.kept, Except.ok.inj hv, Except.ok.inj hv'⟩

end Discovery
end Check
end Triage
