import Triage.Proofs.Catalog.History
import Triage.Proofs.Check.Discovery
import Triage.Proofs.Report.Summary

set_option autoImplicit false

/-!
The messages beside codes in the summary of a check. The catalog is filled before the diagnostics
are sieved and the codes are counted while they are, but from the same diagnostics, so each code
that is counted has a message (`Check.explains_conclude`). A code without one can only be that of a
rule, so only the lines of stale rules ever show that a message is not known.
-/

namespace Triage

def Tally.Counted (t : Tally) (code : Code) : Prop :=
  t.raised.contains code = true ∨ t.ignored.contains code = true

theorem isSome_recorded_countP {ds : List Diagnostic} {p : Diagnostic → Bool} :
    (recorded (ds.countP p)).isSome = true ↔ ∃ d ∈ ds, p d = true := by
  rw [← List.countP_pos_iff, recorded]
  split
  · next h => simp [h]
  · next h => simpa using Nat.pos_of_ne_zero h

theorem Tally.Counts.exists_of_counted {rules : ProjectRules} {ds : List Diagnostic} {path : Text}
    {t : Tally} {code : Code} (h : t.Counts rules ds path) (hc : t.Counted code) :
    ∃ d ∈ ds, d.code = code := by
  rcases hc with hc | hc
  · rw [SortedMap.contains, h.raised] at hc
    obtain ⟨d, hd, hp⟩ := isSome_recorded_countP.1 hc
    exact ⟨d, hd, (of_decide_eq_true hp).2.1⟩
  · rw [SortedMap.contains, h.ignored] at hc
    obtain ⟨d, hd, hp⟩ := isSome_recorded_countP.1 hc
    exact ⟨d, hd, (of_decide_eq_true hp).2.1⟩

namespace Report
open Styled

section Messages
variable {catalog : Catalog} {message : Code → Text}

theorem mem_ranked {m : SortedMap Code Nat} {e : Code × Nat} :
    e ∈ ranked m ↔ m.get? e.1 = some e.2 := by
  rw [ranked, List.mem_mergeSort, SortedMap.get?_eq_some_iff]

theorem codeGroup_congr {message : Code → Text} {codes : SortedMap Code Nat}
    (h : ∀ code, codes.contains code = true → messageOf catalog code = message code)
    (header : String) :
    codeGroup (messageOf catalog) header codes = codeGroup message header codes := by
  unfold codeGroup
  split
  · rfl
  · congr 1
    apply List.flatMap_congr
    intro e he
    have hc : codes.contains e.1 = true := by rw [SortedMap.contains, mem_ranked.1 he]; rfl
    rw [h e.1 hc]

theorem fileDetails_congr {t : Tally} {stale : Code → Text}
    (h : ∀ code, t.Counted code → messageOf catalog code = message code) (base path : Text) :
    fileDetails base (messageOf catalog) stale path t = fileDetails base message stale path t := by
  rw [fileDetails, codeGroup_congr fun code hc => h code (.inl hc),
    codeGroup_congr fun code hc => h code (.inr hc), fileDetails]

theorem detailed_eq_with {s : Summary}
    (h : ∀ path t code, s.get? path = some t → t.Counted code →
      messageOf catalog code = message code) (base : Text) (known : SortedSet Text) :
    detailed base catalog s known = detailedWith base message (messageOf catalog) s known := by
  unfold detailed detailedWith
  congr 2
  apply List.flatMap_congr
  rintro ⟨path, t⟩ he
  exact fileDetails_congr (fun code hc => h path t code (mem_shown.1 he).1 hc) base path

end Messages
end Report

namespace Check
open CommandLine
variable {ds : List Diagnostic} {messages : Option MessageTable} {f : Findings}

theorem remembers_catalog (ds : List Diagnostic) (messages : Option MessageTable) :
    (catalog ds messages).Remembers ds messages.toList := by
  have h := Catalog.remembers_ofDiagnostics ds
  cases messages with
  | none => exact h
  | some table => exact h.load table

/-- Each code counted has a message, that of the first of all diagnostics with the code. -/
def Explains (ds : List Diagnostic) (f : Findings) : Prop :=
  ∀ path t code, f.summary.get? path = some t → t.Counted code →
    ∃ (d : Diagnostic) (message : Text), d.FirstOf ds code ∧
      Catalog.Headline d.message message ∧ f.catalog.get? code = some message

theorem explains_conclude (ds : List Diagnostic) (messages : Option MessageTable)
    (files : SortedSet Text) (rules : ProjectRules) :
    Explains ds (conclude ds messages files rules) := by
  intro path t code ht hc
  have ha := (sift_accounts rules ds).tally path t ht
  obtain ⟨d, hd⟩ := Diagnostic.exists_firstOf (ha.toCounts.exists_of_counted hc)
  exact ⟨d, _, hd, Catalog.headline_iff.2 rfl, (remembers_catalog ds messages).get?_first hd⟩

section Explained
variable (h : Explains ds f) {message : Code → Text}
  (hm : ∀ (d : Diagnostic) code, d.FirstOf ds code → Catalog.Headline d.message (message code))
include h hm

theorem Explains.messageOf_eq {path : Text} {t : Tally} {code : Code}
    (ht : f.summary.get? path = some t) (hc : t.Counted code) :
    Report.messageOf f.catalog code = message code := by
  obtain ⟨d, said, hd, hs, hget⟩ := h path t code ht hc
  have he : said = message code :=
    (Catalog.headline_iff.1 hs).symm.trans (Catalog.headline_iff.1 (hm d code hd))
  rw [Report.messageOf, hget, Option.getD_some, he]

theorem Explains.detailed_eq (dir : Text) : Report.detailed dir f.catalog f.summary f.known =
    Report.detailedWith dir message (Report.messageOf f.catalog) f.summary f.known :=
  Report.detailed_eq_with (fun _ _ _ ht hc => h.messageOf_eq hm ht hc) dir f.known

end Explained

section Run
variable {args : CheckArgs} {settings : Settings} {dir : Text} {colour : Bool}
  {source : RuleSource} {w w' : World}

theorem Finds.explained (h : Finds args settings dir source w f w') :
    ∃ ds messages w₁, Reads args settings dir w ds messages w₁ ∧ Explains ds f := by
  cases h with
  | intro hr hl hq => exact ⟨_, _, _, hr, explains_conclude _ _ _ _⟩

end Run
end Check
end Triage
