import Triage.Proofs.Check.Course
import Triage.Proofs.Report.Summary
import Triage.Proofs.Styled

set_option autoImplicit false

namespace Triage

namespace Check
open CommandLine

def skipped (n : Nat) : Text :=
  "Skipped logging ".toList ++ Text.ofNat n ++ " diagnostics.".toList

theorem escape_not_mem_skipped (n : Nat) : Span.escape ∉ skipped n := by
  have hs : Span.escape ∉ "Skipped logging ".toList := by decide
  have he : Span.escape ∉ " diagnostics.".toList := by decide
  have hn : Span.escape ∉ Text.ofNat n := Text.not_mem_ofNat (by decide) n
  intro h
  rcases List.mem_append.1 h with h | h
  · rcases List.mem_append.1 h with h | h
    · exact hs h
    · exact hn h
  · exact he h

variable {args : CheckArgs} {settings : Settings} {dir : Text} {colour : Bool}
  {source : RuleSource} {w : World}

theorem print_json (hm : args.summaryMode settings = .json) (f : Findings) :
    (print args settings dir colour f).stdout =
        (Report.summaryJson f.summary f.known).pretty ++ ['\n'] ∧
      (print args settings dir colour f).stderr =
        if f.kept = [] then [] else (notice f.kept).render colour := by
  have hl : args.logging settings = false := by simp [CheckArgs.logging, hm]
  unfold print summaryText
  rw [hm, hl]
  by_cases hk : f.kept = [] <;> simp [hk]

/-- With a JSON summary a check that goes through prints one document and a line end, and notes on
the other stream that diagnostics are left. The document is read back as what it was, and has the
reportable entries of the summary under its files. -/
theorem run_json {p : Printed} (hm : args.summaryMode settings = .json)
    (h : ((run args settings dir colour source).run w).value = .ok p) :
    ∃ f w', Finds args settings dir source w f w' ∧
      (∃ doc : Json, p.stdout = doc.pretty ++ ['\n'] ∧
        Json.read doc.pretty = some doc ∧ Json.read p.stdout = some doc ∧
        Summary.ofJsonWith Json.count doc = some f.summary.reportable ∧
        (f.summary.Fits → Summary.ofJson doc = some f.summary.reportable)) ∧
      p.stderr = (if f.kept = [] then [] else (notice f.kept).render colour) ∧
      (skipped f.kept.length <:+: p.stderr ↔ 0 < f.kept.length) := by
  rcases fails_or_finds args settings dir source w with ⟨e, he⟩ | ⟨f, w', hf⟩
  · exact nomatch h.symm.trans (he.run colour)
  · obtain rfl : p = print args settings dir colour f :=
      Except.ok.inj (h.symm.trans (hf.run colour).1)
    obtain ⟨hout, herr⟩ : _ ∧ (print args settings dir colour f).stderr = _ := print_json hm f
    have hs := Report.spelt_summaryJson f.summary f.known
    have hr (g : Text) (hg : g.all Json.isGap = true) :=
      Json.read_write Json.Layout.blank_pretty hs 0 hg
    refine ⟨f, w', hf, ⟨_, hout, ?_, ?_, ?_, ?_⟩, herr, ?_⟩
    · simpa [Json.pretty] using hr [] rfl
    · rw [hout]
      exact hr ['\n'] rfl
    · exact Report.ofJsonWith_summaryJson fun _ _ n _ => Json.restores_count n
    · intro hn
      exact Report.ofJsonWith_summaryJson fun t ht n hm => Json.restores_natural (hn t ht n hm)
    · rw [herr]
      cases hk : f.kept with
      | nil =>
        rw [if_pos rfl, List.infix_nil]
        exact iff_of_false (by decide) (by simp)
      | cons d ds =>
        rw [if_neg (by simp)]
        exact iff_of_true (Styled.infix_render (escape_not_mem_skipped _) _ _ colour) (by simp)

/-- An error is left, in a file with a quote in its name. -/
theorem run_json_quote :
    let path := "/a\"b.ts".toList
    let w : World := ⟨.empty, Utf8.encode "a\"b.ts(1,2): error TS7: m.\n".toList, .ok ['/'],
      fun _ _ => .error .notFound⟩
    let args : CheckArgs := ⟨none, none, none, false, false, false, false, true, none, false, []⟩
    ∃ p, ((run args .default ['/'] false (.fixed .empty)).run w).value = .ok p ∧
      p.stderr = "Skipped logging 1 diagnostics.\n".toList ∧
      ∃ doc : Json, p.stdout = doc.pretty ++ ['\n'] ∧ Json.read p.stdout = some doc ∧
        Summary.ofJson doc =
          some (.ofList [(path, ⟨.ofList [(7, 1)], .empty, .empty, false⟩)]) := by
  intro path w args
  have hv : ((findings args .default ['/'] (.fixed .empty)).run w).value.map
      (fun f => (f.kept.length, f.summary)) =
        .ok (1, .ofList [(path, ⟨.ofList [(7, 1)], .empty, .empty, false⟩)]) := by
    decide
  have ho : ((run args .default ['/'] false (.fixed .empty)).run w).value.isOk = true := by decide
  cases hp : ((run args .default ['/'] false (.fixed .empty)).run w).value with
  | error e =>
    rw [hp] at ho
    cases ho
  | ok p =>
    obtain ⟨f, w', hf, ⟨doc, hout, -, hread, -, hdoc⟩, herr, -⟩ := run_json rfl hp
    rw [(reaches_iff.2 hf).1] at hv
    obtain ⟨hk, hs⟩ := Prod.mk.inj (Except.ok.inj hv)
    have hne : f.kept ≠ [] := fun e => by simp [e] at hk
    rw [if_neg hne, notice, hk] at herr
    rw [hs] at hdoc
    exact ⟨p, rfl, herr.trans (by decide), doc, hout, hread, (hdoc (by decide)).trans (by decide)⟩

end Check
end Triage
