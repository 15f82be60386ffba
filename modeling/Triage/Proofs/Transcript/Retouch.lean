import Mathlib.Logic.Relation
import Triage.Proofs.Transcript.Effect

set_option autoImplicit false

/-!
Changes of a text that make no difference to what is read. Carriage returns at the end of a line
and the end of the last line do not count, and lines that are blank or of neither form may stand
anywhere (`read_retouched`), between a diagnostic and its further lines too.
-/

namespace Triage.Transcript
open Line

/-- What follows the text begins a line. -/
def Fresh (t : Text) : Prop := t = [] ∨ t.getLast? = some '\n'

/-- What precedes the text ends with its line. -/
def Ended (t : Text) : Prop := t = [] ∨ t.head? = some '\n'

inductive Retouch : Text → Text → Prop
  | returns (a : Text) (n : Nat) {b : Text} (ended : Ended b) :
      Retouch (a ++ b) (a ++ List.replicate n '\r' ++ b)
  | ending (a : Text) : Retouch a (a ++ ['\n'])
  | blank {a l : Text} (b : Text) (fresh : Fresh a) (line : '\n' ∉ l)
      (blank : Text.blank l = true) : Retouch (a ++ b) (a ++ l ++ '\n' :: b)
  | noise {a l : Text} (b : Text) (fresh : Fresh a) (line : '\n' ∉ l)
      (flush : l.head?.any Text.isBlank = false) (formless : Formless l) :
      Retouch (a ++ b) (a ++ l ++ '\n' :: b)

section Lines
variable {base a b l : Text} {ds : List Diagnostic}

theorem effect_formless (hflush : l.head?.any Text.isBlank = false) (hl : Formless l) :
    effect base l = .nothing := by
  obtain ⟨n, hs⟩ := exists_stripped_append l
  rw [hs] at hl
  rw [effect_flush hflush, read_eq_none_iff.2 hl.of_append]
  rfl

theorem exists_last_line (t : Text) :
    ∃ raw, '\n' ∉ raw ∧ (t = raw ∨ ∃ before, t = before ++ '\n' :: raw) := by
  by_cases h : '\n' ∈ t.reverse
  · obtain ⟨raw, before, he, hraw⟩ := List.eq_append_cons_of_mem h
    refine ⟨raw.reverse, by simpa using hraw, .inr ⟨before.reverse, ?_⟩⟩
    rw [← t.reverse_reverse, he]
    simp
  · exact ⟨t, by simpa using h, .inl rfl⟩

theorem readOn_returns (ds : List Diagnostic) (a : Text) (n : Nat) :
    readOn base ds (a ++ List.replicate n '\r') = readOn base ds a := by
  have hline {raw : Text} (h : '\n' ∉ raw) (ds : List Diagnostic) :
      readOn base ds (raw ++ List.replicate n '\r') = readOn base ds raw := by
    have hr : '\n' ∉ raw ++ List.replicate n '\r' := by simp [h]
    rw [readOn_line h, readOn_line hr, effect_append_returns]
  obtain ⟨raw, hraw, rfl | ⟨before, rfl⟩⟩ := exists_last_line a
  · exact hline hraw ds
  · rw [List.append_assoc, List.cons_append, readOn_append, hline hraw, ← readOn_append]

theorem readOn_passed (hl : effect base l = .nothing) (hline : '\n' ∉ l) (ha : Fresh a)
    (b : Text) : readOn base ds (a ++ l ++ '\n' :: b) = readOn base ds (a ++ b) := by
  have hpass (ds : List Diagnostic) : readOn base ds (l ++ '\n' :: b) = readOn base ds b := by
    rw [readOn_append, readOn_line hline, hl]
    rfl
  rcases ha with rfl | ha
  · exact hpass ds
  · obtain ⟨before, rfl⟩ := List.getLast?_eq_some_iff.1 ha
    have hwith : before ++ ['\n'] ++ l ++ '\n' :: b = before ++ '\n' :: (l ++ '\n' :: b) := by
      simp
    have hwithout : before ++ ['\n'] ++ b = before ++ '\n' :: b := by simp
    rw [hwith, hwithout, readOn_append, hpass, ← readOn_append]

/-- One change leaves the diagnostics that are read, behind whatever stands before. -/
theorem readOn_retouch {s t : Text} (h : Retouch s t) : readOn base ds t = readOn base ds s := by
  cases h with
  | returns a n ended =>
    rcases ended with rfl | hb
    · simp only [List.append_nil, readOn_returns]
    · obtain ⟨b, rfl⟩ := List.head?_eq_some_iff.1 hb
      rw [readOn_append, readOn_returns, readOn_append]
  | ending => rw [readOn_append, readOn_nil]
  | blank b fresh line blank => exact readOn_passed (effect_blank blank) line fresh b
  | noise b fresh line flush formless =>
    exact readOn_passed (effect_formless flush formless) line fresh b

end Lines

/-- Any number of changes, each made or undone, leave the diagnostics of a text. -/
theorem read_retouched {base s t : Text} (h : Relation.EqvGen Retouch s t) :
    read base s = read base t := by
  induction h with
  | rel s t h => exact (readOn_retouch h).symm
  | refl => rfl
  | symm _ _ _ ih => exact ih.symm
  | trans _ _ _ _ _ ih ih' => exact ih.trans ih'

/-- A banner in front, carriage returns, a line of blanks in front of a further line, and no end of
the last line. -/
theorem read_retouched_crlf :
    let base := "/repo".toList
    let s := "error TS1: x\n  y\n".toList
    let t := "Build:\nerror TS1: x\r\r\n \t\n  y".toList
    read base s = read base t ∧ (read base t).map (·.message) = ["x\n  y".toList] := by
  intro base s t
  have hending : Retouch "error TS1: x\n  y".toList s := .ending _
  have hnoise : Retouch "error TS1: x\n  y".toList "Build:\nerror TS1: x\n  y".toList :=
    .noise (l := "Build:".toList) _ (.inl rfl) (by decide) (by decide) (by decide)
  have hreturns : Retouch "Build:\nerror TS1: x\n  y".toList
      "Build:\nerror TS1: x\r\r\n  y".toList :=
    .returns "Build:\nerror TS1: x".toList 2 (b := "\n  y".toList) (.inr rfl)
  have hblank : Retouch "Build:\nerror TS1: x\r\r\n  y".toList t :=
    .blank (a := "Build:\nerror TS1: x\r\r\n".toList) (l := " \t".toList) _ (.inr rfl)
      (by decide) (by decide)
  refine ⟨read_retouched (.trans _ _ _ (.symm _ _ (.rel _ _ hending)) ?_), by decide +kernel⟩
  exact .trans _ _ _ (.rel _ _ hnoise) (.trans _ _ _ (.rel _ _ hreturns) (.rel _ _ hblank))

end Triage.Transcript
