import Mathlib
import Triage.Diagnostic
import Triage.Text.Decimal

set_option autoImplicit false

namespace Triage

/-- The letters of a word, each of them small or capital. -/
def Text.AnyCase (w word : Text) : Prop := List.Forall₂ (fun c d => c = d ∨ c = d.toUpper) w word

theorem Text.exists_letter {first : Nat} {c : Char} (h₁ : first ≤ c.toNat)
    (h₂ : c.toNat < first + 26) : ∃ k : Fin 26, c = Char.ofNat (first + k) := by
  refine ⟨⟨c.toNat - first, by omega⟩, ?_⟩
  have hn : first + (c.toNat - first) = c.toNat := by omega
  rw [hn, Char.ofNat_toNat]

theorem Text.toLower_eq_iff {c d : Char} (hd : d.isLower = true) :
    c.toLower = d ↔ c = d ∨ c = d.toUpper := by
  obtain ⟨j, rfl⟩ : ∃ j : Fin 26, d = Char.ofNat (97 + j) := by
    simp only [Char.isLower, Bool.and_eq_true, decide_eq_true_eq] at hd
    have h₁ : 97 ≤ d.toNat := hd.1
    have h₂ : d.toNat ≤ 122 := hd.2
    exact exists_letter h₁ (by omega)
  by_cases hc : c.isUpper = true
  · obtain ⟨k, rfl⟩ : ∃ k : Fin 26, c = Char.ofNat (65 + k) := by
      simp only [Char.isUpper, decide_eq_true_eq] at hc
      have h₁ : 65 ≤ c.toNat := hc.1
      have h₂ : c.toNat ≤ 90 := hc.2
      exact exists_letter h₁ (by omega)
    have h : ∀ k j : Fin 26, (Char.ofNat (65 + k)).toLower = Char.ofNat (97 + j) ↔
        Char.ofNat (65 + k) = Char.ofNat (97 + j) ∨
          Char.ofNat (65 + k) = (Char.ofNat (97 + j)).toUpper := by decide
    exact h k j
  · have hl : c.toLower = c := by
      rw [Char.toLower, dif_neg]
      simpa [Char.isUpper] using hc
    have hu : ∀ j : Fin 26, (Char.ofNat (97 + j)).toUpper.isUpper = true := by decide
    have hne : c ≠ (Char.ofNat (97 + j)).toUpper := fun e => hc (e ▸ hu j)
    simp [hl, hne]

theorem Text.lower_eq_iff {w word : Text} (h : ∀ d ∈ word, d.isLower = true) :
    lower w = word ↔ AnyCase w word := by
  induction word generalizing w with
  | nil => cases w <;> simp [lower, AnyCase]
  | cons d word ih =>
    have hd := toLower_eq_iff (c := w.headD d) (h d (by simp))
    cases w with
    | nil => simp [lower, AnyCase]
    | cons c w =>
      have ih := ih (w := w) fun e he => h e (by simp [he])
      simp only [lower, AnyCase, List.map_cons, List.cons.injEq, List.forall₂_cons,
        List.headD_cons] at hd ih ⊢
      rw [hd, ih]

theorem Severity.ofAnyCase?_eq_some_iff {w : Text} {s : Severity} :
    ofAnyCase? w = some s ↔ Text.AnyCase w s.word := by
  have hs : s.word.all Char.isLower = true := by cases s <;> rfl
  rw [← Text.lower_eq_iff (List.all_eq_true.1 hs)]
  constructor
  · intro h
    have hw := List.find?_some h
    exact (of_decide_eq_true hw).symm
  · intro h
    rw [ofAnyCase?, h, ofWord?_word]

def Numeral (t : Text) : Prop := t ≠ [] ∧ ∀ c ∈ t, Text.isDigit c = true

instance (t : Text) : Decidable (Numeral t) :=
  inferInstanceAs (Decidable (t ≠ [] ∧ ∀ c ∈ t, Text.isDigit c = true))

theorem Numeral.toWord? {digits : Text} (h : Numeral digits) :
    Text.toWord? digits =
      if Nat.ofDigitChars 10 digits 0 < UInt32.size
        then some (UInt32.ofNat (Nat.ofDigitChars 10 digits 0)) else none := by
  have hn : Text.toNat? digits = some (Nat.ofDigitChars 10 digits 0) := by
    rw [Text.toNat?, if_neg h.1, if_pos (List.all_eq_true.2 h.2)]
  rw [Text.toWord?, hn]

def Text.Writes (t : Text) (n : UInt32) : Prop :=
  Numeral t ∧ Nat.ofDigitChars 10 t 0 = n.toNat

theorem Text.toWord?_eq_some_iff {t : Text} {n : UInt32} : toWord? t = some n ↔ Writes t n := by
  unfold Writes
  by_cases ht : Numeral t
  · rw [ht.toWord?]
    split
    · next hlt =>
      have hn : (UInt32.ofNat (Nat.ofDigitChars 10 t 0)).toNat = Nat.ofDigitChars 10 t 0 :=
        Nat.mod_eq_of_lt hlt
      rw [Option.some.injEq, ← UInt32.toNat_inj, hn]
      exact (and_iff_right ht).symm
    · next hge =>
      have hn := n.toNat_lt_size
      exact iff_of_false (by simp) fun h => hge (h.2 ▸ hn)
  · have hnone : toNat? t = none := by
      unfold toNat?
      split
      · rfl
      · next hne => exact if_neg fun hall => ht ⟨hne, List.all_eq_true.1 hall⟩
    rw [toWord?, hnone]
    exact iff_of_false (by simp) fun h => ht h.1

end Triage
