import Triage.Text.Class

set_option autoImplicit false

namespace Triage.Text

def toNat? (t : Text) : Option Nat :=
  if t = [] then none else if t.all isDigit then some (Nat.ofDigitChars 10 t 0) else none

/-- The number below `2 ^ 32` written by a non-empty run of ASCII digits. -/
def toWord? (t : Text) : Option UInt32 :=
  match toNat? t with
  | some n => if n < UInt32.size then some (UInt32.ofNat n) else none
  | none => none

def ofNat (n : Nat) : Text := Nat.toDigits 10 n

theorem ofNat_ne_nil (n : Nat) : ofNat n ≠ [] := Nat.toDigits_ne_nil

theorem isDigit_of_mem_ofNat {n : Nat} {c : Char} (h : c ∈ ofNat n) : isDigit c = true :=
  Nat.isDigit_of_mem_toDigits (by decide) (by decide) h

theorem not_mem_ofNat {c : Char} (h : isDigit c = false) (n : Nat) : c ∉ ofNat n := by
  intro hc
  rw [isDigit_of_mem_ofNat hc] at h
  cases h

theorem exists_ofNat_cons (n : Nat) : ∃ c t, ofNat n = c :: t ∧ isDigit c = true := by
  obtain ⟨c, t, hc⟩ := List.exists_cons_of_ne_nil (ofNat_ne_nil n)
  exact ⟨c, t, hc, isDigit_of_mem_ofNat (n := n) (by simp [hc])⟩

theorem exists_digitChar {c : Char} (h : isDigit c = true) : ∃ d, d < 10 ∧ c = d.digitChar := by
  simp only [isDigit, Bool.and_eq_true, decide_eq_true_eq] at h
  have h₁ : 0x30 ≤ c.toNat := h.1
  have h₂ : c.toNat ≤ 0x39 := h.2
  have hd : ∀ d : Fin 10, Char.ofNat (d.val + 0x30) = d.val.digitChar := by decide
  have hc := hd ⟨c.toNat - 0x30, by omega⟩
  have hn : c.toNat - 0x30 + 0x30 = c.toNat := by omega
  refine ⟨c.toNat - 0x30, by omega, ?_⟩
  rw [← hc, hn, Char.ofNat_toNat]

theorem head?_ofNat {n : Nat} (h : n ≠ 0) : (ofNat n).head? ≠ some '0' := by
  induction n using Nat.strongRecOn with
  | ind n ih =>
    by_cases hn : n < 10
    · have hd : ∀ k : Fin 10, k.val ≠ 0 → ([k.val.digitChar] : Text).head? ≠ some '0' := by decide
      rw [ofNat, Nat.toDigits_of_lt_base hn]
      exact hd ⟨n, hn⟩ h
    · have hq := ih (n / 10) (by omega) (by omega)
      obtain ⟨c, r, hc, -⟩ := exists_ofNat_cons (n / 10)
      rw [ofNat, Nat.toDigits_of_base_le (by decide) (by omega)]
      change (ofNat (n / 10) ++ _).head? ≠ _
      rw [hc] at hq ⊢
      exact hq

theorem toNat?_ofNat (n : Nat) : toNat? (ofNat n) = some n := by
  have hd : (ofNat n).all isDigit = true :=
    List.all_eq_true.2 fun c hc => isDigit_of_mem_ofNat hc
  have hv : Nat.ofDigitChars 10 (ofNat n) 0 = n := Nat.ofDigitChars_ten_toDigits
  rw [toNat?, if_neg (ofNat_ne_nil n), if_pos hd, hv]

/-- Digits behind a number other than zero carry its shortest form on. -/
theorem ofNat_append {l : Text} (hl : ∀ c ∈ l, isDigit c = true) {n : Nat} (hn : 0 < n) :
    ofNat n ++ l = ofNat (Nat.ofDigitChars 10 l n) := by
  induction l generalizing n with
  | nil => simp [Nat.ofDigitChars]
  | cons c l ih =>
    obtain ⟨d, hd, rfl⟩ := exists_digitChar (hl c (by simp))
    have hc : ofNat (10 * n + d) = ofNat n ++ [d.digitChar] := by
      have h := Nat.toDigits_append_toDigits (b := 10) (d := d) (by decide) hn hd
      rw [Nat.toDigits_of_lt_base hd] at h
      exact h.symm
    have h := ih (fun e he => hl e (by simp [he])) (n := 10 * n + d) (by omega)
    rw [hc] at h
    rw [Nat.ofDigitChars_cons_digitChar_of_lt_ten hd, ← h, List.append_assoc]
    rfl

/-- Digits without a leading zero are the shortest form of their number. -/
theorem eq_ofNat {t : Text} (hne : t ≠ []) (ht : ∀ c ∈ t, isDigit c = true)
    (hz : t.head? ≠ some '0') : t = ofNat (Nat.ofDigitChars 10 t 0) := by
  cases t with
  | nil => exact absurd rfl hne
  | cons c l =>
    obtain ⟨d, hd, rfl⟩ := exists_digitChar (ht c (by simp))
    have hpos : 0 < d := by
      rcases Nat.eq_zero_or_pos d with rfl | h
      · exact absurd rfl hz
      · exact h
    have h := ofNat_append (l := l) (fun e he => ht e (by simp [he])) hpos
    rw [Nat.ofDigitChars_cons_digitChar_of_lt_ten hd, Nat.mul_zero, Nat.zero_add, ← h, ofNat,
      Nat.toDigits_of_lt_base hd]
    rfl

theorem toWord?_ofNat (w : UInt32) : toWord? (ofNat w.toNat) = some w := by
  have hw : w.toNat < UInt32.size := w.toNat_lt_size
  simp only [toWord?, toNat?_ofNat, hw, if_true, UInt32.ofNat_toNat]

end Triage.Text
