import Triage.Styled

set_option autoImplicit false

namespace Triage

namespace Span

/-- A text that ends no style stands as it is between the sequences of its own. -/
theorem reopen_of_not_mem {t : Text} (h : escape ∉ t) (opening : Text) :
    reopen opening t = t := by
  induction t with
  | nil => rfl
  | cons c r ih =>
    have hc : ¬ c = escape := fun e => h (by simp [e])
    have hr : escape ∉ r := fun hm => h (by simp [hm])
    unfold reopen
    simp [hc, ih hr]

theorem coloured_of_not_mem {s : Span} (h : escape ∉ s.text) :
    s.coloured = if s.style = .plain then s.text else opening s.style ++ s.text ++ reset := by
  rw [coloured, reopen_of_not_mem h]

def begins (t : Text) : Bool :=
  t.head? = some escape && t.tail.head? = some '[' && t.contains 'm'

/-- Takes out all sequences `ESC [ … m`. The first argument tells whether one has begun. -/
def erase : Bool → Text → Text
  | _, [] => []
  | true, c :: r => erase (c ≠ 'm') r
  | false, c :: r => if begins (c :: r) then erase true r else c :: erase false r

def erased (t : Text) : Text := erase false t

theorem erase_sequence {s : Text} (h : 'm' ∉ s) (r : Text) :
    erase true (s ++ 'm' :: r) = erased r := by
  induction s with
  | nil => rfl
  | cons c s ih =>
    have hc : c ≠ 'm' := fun e => h (by simp [e])
    have hs : 'm' ∉ s := fun hm => h (by simp [hm])
    simpa [erase, hc] using ih hs

theorem erased_sequence {s : Text} (h : 'm' ∉ s) (r : Text) :
    erased (escape :: '[' :: (s ++ 'm' :: r)) = erased r := by
  have hb : begins (escape :: '[' :: (s ++ 'm' :: r)) = true := by simp [begins]
  have hs : 'm' ∉ '[' :: s := by simpa using h
  rw [erased, erase, if_pos hb]
  exact erase_sequence hs r

theorem erased_append {s : Text} (h : escape ∉ s) (r : Text) : erased (s ++ r) = s ++ erased r := by
  induction s with
  | nil => rfl
  | cons c s ih =>
    have hc : c ≠ escape := fun e => h (by simp [e])
    have hs : escape ∉ s := fun hm => h (by simp [hm])
    have hb : begins (c :: s ++ r) = false := by simp [begins, hc]
    have hr := ih hs
    simp only [erased] at hr ⊢
    rw [List.cons_append, erase, if_neg (by simpa using hb), hr, List.cons_append]

theorem erased_opening (s : Style) (r : Text) : erased (opening s ++ r) = erased r := by
  have hm : 'm' ∉ s.sequence := by
    cases s with
    | hue h => cases h <;> decide
    | boldHue h => cases h <;> decide
    | _ => decide
  have h := erased_sequence hm r
  simpa [opening] using h

theorem erased_coloured {s : Span} (h : escape ∉ s.text) (r : Text) :
    erased (s.coloured ++ r) = s.text ++ erased r := by
  rw [coloured_of_not_mem h]
  split
  · exact erased_append h r
  · have hr : erased (reset ++ r) = erased r := erased_sequence (s := ['0']) (by decide) r
    rw [List.append_assoc, List.append_assoc, erased_opening, erased_append h, hr]

end Span

namespace Styled

theorem infix_render {t : Text} (h : Span.escape ∉ t) (s : Style) (rest : Styled)
    (colour : Bool) : t <:+: (inStyle s t ++ rest).render colour := by
  cases colour with
  | false =>
    refine ⟨[], plain rest, ?_⟩
    simp [render]
  | true =>
    by_cases hs : s = .plain
    · refine ⟨[], coloured rest, ?_⟩
      simp [render, inStyle, coloured, Span.coloured, hs]
    · refine ⟨Span.opening s, Span.reset ++ coloured rest, ?_⟩
      simp [render, inStyle, coloured, Span.coloured, hs, Span.reopen_of_not_mem h]

theorem erased_coloured {s : Styled} (h : Span.escape ∉ s.plain) :
    Span.erased s.coloured = s.plain := by
  induction s with
  | nil => rfl
  | cons a s ih =>
    obtain ⟨ha, hs⟩ : Span.escape ∉ a.text ∧ Span.escape ∉ plain s := by
      simpa [plain, not_or] using h
    have hr := Span.erased_coloured ha (coloured s)
    rw [ih hs] at hr
    simpa [coloured, plain] using hr

end Styled
end Triage
