set_option autoImplicit false

/-!
Text as the list of its characters, so that every reader and writer of this library recurses on
what it reads. Splitting at a separator and joining again are inverse to each other; trimming
takes a class of characters.
-/

namespace Triage

/-- Text, character by character. The order of two texts is that of their code points, which is
also the order of their encoded bytes. -/
abbrev Text := List Char

instance : LawfulBEq Text := inferInstance

namespace Text

def split (sep : Char) : Text → List Text
  | [] => [[]]
  | c :: r => if c = sep then [] :: split sep r else (split sep r).modifyHead (c :: ·)

def join (sep : Text) : List Text → Text
  | [] => []
  | [t] => t
  | t :: u :: r => t ++ sep ++ join sep (u :: r)

theorem split_ne_nil (sep : Char) (t : Text) : split sep t ≠ [] := by
  cases t with
  | nil => simp [split]
  | cons c r =>
    unfold split
    split
    · simp
    · cases h : split sep r with
      | nil => exact absurd h (split_ne_nil sep r)
      | cons p ps => simp

theorem join_split (sep : Char) (t : Text) : join [sep] (split sep t) = t := by
  induction t with
  | nil => rfl
  | cons c r ih =>
    unfold split
    cases h : split sep r with
    | nil => exact absurd h (split_ne_nil sep r)
    | cons p ps =>
      rw [h] at ih
      by_cases hc : c = sep
      · simp [hc, join, ih]
      · cases ps <;> simp_all [join]

theorem split_append (sep : Char) (s t : Text) :
    split sep (s ++ sep :: t) = split sep s ++ split sep t := by
  induction s with
  | nil => simp [split]
  | cons c s ih =>
    by_cases hc : c = sep
    · simp [split, hc, ih]
    · cases hs : split sep s with
      | nil => exact absurd hs (split_ne_nil sep s)
      | cons p ps => simp [split, hc, ih, hs]

theorem split_of_not_mem_append {sep : Char} {s : Text} (h : sep ∉ s) (t : Text) :
    split sep (s ++ t) = (split sep t).modifyHead (s ++ ·) := by
  induction s with
  | nil => cases h : split sep t <;> simp [h]
  | cons c s ih =>
    simp only [List.mem_cons, not_or] at h
    have hc : ¬ c = sep := fun e => h.1 e.symm
    cases ht : split sep t with
    | nil => exact absurd ht (split_ne_nil sep t)
    | cons p ps => simp [split, hc, ih h.2, ht]

theorem split_of_not_mem {sep : Char} {t : Text} (h : sep ∉ t) : split sep t = [t] := by
  simpa [split] using split_of_not_mem_append h []

theorem not_mem_of_mem_split {sep : Char} {t p : Text} (h : p ∈ split sep t) : sep ∉ p := by
  induction t generalizing p with
  | nil => simp [split] at h; simp [h]
  | cons c r ih =>
    by_cases hc : c = sep
    · simp [split, hc] at h
      rcases h with rfl | h
      · simp
      · exact ih h
    · cases hs : split sep r with
      | nil => exact absurd hs (split_ne_nil sep r)
      | cons q qs =>
        simp [split, hc, hs] at h
        rcases h with rfl | h
        · have hq := ih (p := q) (by simp [hs])
          simp [hq, Ne.symm hc]
        · exact ih (by simp [hs, h])

theorem split_join {sep : Char} {ps : List Text} (hne : ps ≠ []) (h : ∀ p ∈ ps, sep ∉ p) :
    split sep (join [sep] ps) = ps := by
  induction ps with
  | nil => exact absurd rfl hne
  | cons p ps ih =>
    cases ps with
    | nil => simpa [join] using split_of_not_mem (h p (by simp))
    | cons q qs =>
      have hp := split_of_not_mem (h p (by simp))
      have hr := ih (by simp) fun r hr => h r (by simp [hr])
      simp [join, split_append, hp, hr]

theorem not_mem_split {sep c : Char} {t : Text} (h : c ∉ t) : ∀ p ∈ split sep t, c ∉ p := by
  induction t with
  | nil => simp [split]
  | cons d r ih =>
    simp only [List.mem_cons, not_or] at h
    have ih := ih h.2
    by_cases hd : d = sep
    · simpa [split, hd] using ih
    · cases hs : split sep r with
      | nil => exact absurd hs (split_ne_nil sep r)
      | cons q qs =>
        rw [hs] at ih
        simpa [split, hd, hs, h.1] using ih

theorem not_mem_join {c : Char} {sep : Text} (hs : c ∉ sep) {ps : List Text}
    (h : ∀ p ∈ ps, c ∉ p) : c ∉ join sep ps := by
  induction ps with
  | nil => simp [join]
  | cons p ps ih =>
    cases ps with
    | nil => simpa [join] using h
    | cons q qs =>
      have hp := h p (by simp)
      have hr := ih fun r hr => h r (by simp [hr])
      simp [join, hp, hs, hr]

theorem split_lines {α : Type} (sep : Char) (f : α → Text) (l : List α) (t : Text) :
    split sep (l.flatMap (fun a => f a ++ [sep]) ++ t) =
      l.flatMap (fun a => split sep (f a)) ++ split sep t := by
  induction l with
  | nil => rfl
  | cons a l ih =>
    simp only [List.flatMap_cons, List.append_assoc, List.cons_append, List.nil_append]
    rw [split_append, ih]

/-- A run of a class is found in front of anything that does not carry it on. -/
theorem run_append {p : Char → Bool} {s r : Text} (hs : ∀ c ∈ s, p c = true)
    (hr : r.head?.any p = false) : (s ++ r).takeWhile p = s ∧ (s ++ r).dropWhile p = r := by
  have ht : r.takeWhile p = [] ∧ r.dropWhile p = r := by
    cases r with
    | nil => simp
    | cons c r => simp at hr; simp [hr]
  constructor
  · rw [List.takeWhile_append_of_pos hs, ht.1, List.append_nil]
  · rw [List.dropWhile_append_of_pos hs, ht.2]

def trimStart (p : Char → Bool) (t : Text) : Text := t.dropWhile p

def trimEnd (p : Char → Bool) (t : Text) : Text := (t.reverse.dropWhile p).reverse

theorem trimEnd_of_getLast {p : Char → Bool} {t : Text} (h : t.getLast?.any p = false) :
    trimEnd p t = t := by
  rw [← List.head?_reverse] at h
  unfold trimEnd
  cases hr : t.reverse with
  | nil => simpa using hr
  | cons c r =>
    rw [hr] at h
    simp only [List.head?_cons, Option.any_some] at h
    rw [List.dropWhile_cons, h, ← hr]
    simp

theorem trimEnd_append {p : Char → Bool} {s : Text} (h : ∀ c ∈ s, p c = true) (t : Text) :
    trimEnd p (t ++ s) = trimEnd p t := by
  have hs : ∀ c ∈ s.reverse, p c = true := fun c hc => h c (List.mem_reverse.1 hc)
  rw [trimEnd, List.reverse_append, List.dropWhile_append_of_pos hs, trimEnd]

theorem exists_trimEnd_append (p : Char → Bool) (t : Text) :
    ∃ s, (∀ c ∈ s, p c = true) ∧ t = trimEnd p t ++ s := by
  refine ⟨(t.reverse.takeWhile p).reverse, fun c hc => ?_, ?_⟩
  · exact List.all_eq_true.1 List.all_takeWhile c (List.mem_reverse.1 hc)
  · rw [trimEnd, ← List.reverse_append, List.takeWhile_append_dropWhile, List.reverse_reverse]

def trim (p : Char → Bool) (t : Text) : Text := trimEnd p (trimStart p t)

def after? : Text → Text → Option Text
  | [], t => some t
  | _ :: _, [] => none
  | c :: s, d :: t => if c = d then after? s t else none

@[simp] theorem after?_append (s t : Text) : after? s (s ++ t) = some t := by
  induction s with
  | nil => rfl
  | cons c s ih => simp [after?, ih]

theorem eq_append_of_after? {s t r : Text} (h : after? s t = some r) : t = s ++ r := by
  induction s generalizing t with
  | nil => simpa [after?] using h
  | cons c s ih =>
    cases t with
    | nil => simp [after?] at h
    | cons d t =>
      by_cases hc : c = d
      · simp [after?, hc] at h
        simp [hc, ih h]
      · simp [after?, hc] at h

/-- The text, filled up with blanks on the left to at least the given width. -/
def padStart (width : Nat) (t : Text) : Text := List.replicate (width - t.length) ' ' ++ t

end Text
end Triage
