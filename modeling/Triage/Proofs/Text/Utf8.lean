import Triage.Text.Utf8

set_option autoImplicit false

namespace Triage

theorem Text.charOf?_toNat (c : Char) : charOf? c.toNat = some c := by
  have hv : c.toNat < 0xD800 ∨ 0xDFFF < c.toNat ∧ c.toNat < 0x110000 := c.valid
  rw [charOf?, if_pos hv, Char.ofNat_toNat]

namespace Utf8

theorem toNat_byte {n : Nat} (h : n < 256) : (UInt8.ofNat n).toNat = n := by
  simp only [UInt8.toNat_ofNat']
  omega

theorem takeTails_cons (k n : Nat) {m : Nat} (h : m < 64) (r : Bytes) :
    takeTails (k + 1) n (UInt8.ofNat (m + 0x80) :: r) = takeTails k (64 * n + m) r := by
  have hb := toNat_byte (n := m + 0x80) (by omega)
  have hc : continues (UInt8.ofNat (m + 0x80)) = true := by
    simp only [continues, Bool.and_eq_true, decide_eq_true_eq, UInt8.le_iff_toNat_le, hb]
    constructor
    · show 128 ≤ m + 128
      omega
    · show m + 128 ≤ 191
      omega
  simp only [takeTails, hc, if_true, hb, Nat.add_sub_cancel]

theorem takeSecond_cons {low high : UInt8} (k n : Nat) {m : Nat} (hl : low.toNat ≤ m + 0x80)
    (hh : m + 0x80 ≤ high.toNat) (r : Bytes) :
    takeSecond low high k n (UInt8.ofNat (m + 0x80) :: r) = takeTails k (64 * n + m) r := by
  have hlt := high.toNat_lt
  have hb := toNat_byte (n := m + 0x80) (by omega)
  have hc : (low ≤ UInt8.ofNat (m + 0x80) && UInt8.ofNat (m + 0x80) ≤ high) = true := by
    simp only [Bool.and_eq_true, decide_eq_true_eq, UInt8.le_iff_toNat_le, hb]
    exact ⟨hl, hh⟩
  simp only [takeSecond, hc, if_true, hb, Nat.add_sub_cancel]

theorem takeTails_done {c : Char} {n : Nat} (h : n = c.toNat) (r : Bytes) :
    takeTails 0 n r = (some c, r) := by
  rw [takeTails, h, Text.charOf?_toNat]

theorem takeFrom_one {n : Nat} (h : n < 0x80) (r : Bytes) :
    takeFrom (UInt8.ofNat n) r = (Text.charOf? n, r) := by
  have hb := toNat_byte (n := n) (by omega)
  simp only [takeFrom, hb, if_pos h]

theorem takeFrom_two {n m : Nat} (hl : 0xC2 ≤ n) (hh : n < 0xE0) (hm : m < 64) (r : Bytes) :
    takeFrom (UInt8.ofNat n) (UInt8.ofNat (m + 0x80) :: r) =
      takeTails 0 (64 * (n - 0xC0) + m) r := by
  have hb := toNat_byte (n := n) (by omega)
  have h₁ : ¬ n < 0x80 := by omega
  have h₂ : ¬ n < 0xC2 := by omega
  simp only [takeFrom, hb, if_neg h₁, if_neg h₂, if_pos hh]
  exact takeSecond_cons 0 _ (Nat.le_add_left _ _) (by change m + 128 ≤ 191; omega) r

/-- Below `E0 A0` a shorter encoding would do, from `ED A0` on are surrogates. -/
theorem takeFrom_three {n m : Nat} (hl : 0xE0 ≤ n) (hh : n < 0xF0) (hm : m < 64)
    (h₀ : n = 0xE0 → 0x20 ≤ m) (hd : n = 0xED → m < 0x20) (r : Bytes) :
    takeFrom (UInt8.ofNat n) (UInt8.ofNat (m + 0x80) :: r) =
      takeTails 1 (64 * (n - 0xE0) + m) r := by
  have hb := toNat_byte (n := n) (by omega)
  have h₁ : ¬ n < 0x80 := by omega
  have h₂ : ¬ n < 0xC2 := by omega
  have h₃ : ¬ n < 0xE0 := by omega
  simp only [takeFrom, hb, if_neg h₁, if_neg h₂, if_neg h₃]
  by_cases he : n = 0xE0
  · have hm' := h₀ he
    subst he
    exact takeSecond_cons 1 0 (by change 160 ≤ m + 128; omega) (by change m + 128 ≤ 191; omega) r
  · by_cases he' : n = 0xED
    · have hm' := hd he'
      subst he'
      exact takeSecond_cons 1 13 (Nat.le_add_left _ _) (by change m + 128 ≤ 159; omega) r
    · simp only [if_neg he, if_neg he', if_pos hh]
      exact takeSecond_cons 1 _ (Nat.le_add_left _ _) (by change m + 128 ≤ 191; omega) r

/-- Below `F0 90` a shorter encoding would do, from `F4 90` on there are no characters. -/
theorem takeFrom_four {n m : Nat} (hl : 0xF0 ≤ n) (hh : n ≤ 0xF4) (hm : m < 64)
    (h₀ : n = 0xF0 → 0x10 ≤ m) (hd : n = 0xF4 → m < 0x10) (r : Bytes) :
    takeFrom (UInt8.ofNat n) (UInt8.ofNat (m + 0x80) :: r) =
      takeTails 2 (64 * (n - 0xF0) + m) r := by
  have hb := toNat_byte (n := n) (by omega)
  have h₁ : ¬ n < 0x80 := by omega
  have h₂ : ¬ n < 0xC2 := by omega
  have h₃ : ¬ n < 0xE0 := by omega
  have h₄ : ¬ n = 0xE0 := by omega
  have h₅ : ¬ n = 0xED := by omega
  have h₆ : ¬ n < 0xF0 := by omega
  simp only [takeFrom, hb, if_neg h₁, if_neg h₂, if_neg h₃, if_neg h₄, if_neg h₅, if_neg h₆]
  by_cases he : n = 0xF0
  · have hm' := h₀ he
    subst he
    exact takeSecond_cons 2 0 (by change 144 ≤ m + 128; omega) (by change m + 128 ≤ 191; omega) r
  · by_cases he' : n = 0xF4
    · have hm' := hd he'
      subst he'
      exact takeSecond_cons 2 4 (Nat.le_add_left _ _) (by change m + 128 ≤ 143; omega) r
    · have hlt : n < 0xF4 := by omega
      simp only [if_neg he, if_pos hlt]
      exact takeSecond_cons 2 _ (Nat.le_add_left _ _) (by change m + 128 ≤ 191; omega) r

theorem takeFrom_encoded (c : Char) (r : Bytes) :
    ∃ b t, String.utf8EncodeChar c = b :: t ∧ takeFrom b (t ++ r) = (some c, r) := by
  have hv : c.toNat < 0xD800 ∨ 0xDFFF < c.toNat ∧ c.toNat < 0x110000 := c.valid
  simp only [String.utf8EncodeChar, Char.toNat_val]
  by_cases h₁ : c.toNat ≤ 0x7f
  · refine ⟨_, _, if_pos h₁, ?_⟩
    rw [takeFrom_one (by omega), Text.charOf?_toNat]
    rfl
  · rw [if_neg h₁]
    by_cases h₂ : c.toNat ≤ 0x7ff
    · refine ⟨_, _, if_pos h₂, ?_⟩
      simp only [List.cons_append, List.nil_append]
      rw [takeFrom_two (by omega) (by omega) (by omega), takeTails_done (c := c) (by omega)]
    · rw [if_neg h₂]
      by_cases h₃ : c.toNat ≤ 0xffff
      · -- that no character is a surrogate settles the second byte behind `ED`
        refine ⟨_, _, if_pos h₃, ?_⟩
        simp only [List.cons_append, List.nil_append]
        rw [takeFrom_three (by omega) (by omega) (by omega) (by omega) (by omega),
          takeTails_cons 0 _ (by omega), takeTails_done (c := c) (by omega)]
      · refine ⟨_, _, if_neg h₃, ?_⟩
        simp only [List.cons_append, List.nil_append]
        rw [takeFrom_four (by omega) (by omega) (by omega) (by omega) (by omega),
          takeTails_cons 1 _ (by omega), takeTails_cons 0 _ (by omega),
          takeTails_done (c := c) (by omega)]

theorem cut_encode (t : Text) {k : Nat} (h : (encode t).length ≤ k) :
    cut k (encode t) = t.map some := by
  induction t generalizing k with
  | nil => cases k <;> rfl
  | cons c t ih =>
    obtain ⟨b, r, hb, hc⟩ := takeFrom_encoded c (encode t)
    have he : encode (c :: t) = b :: (r ++ encode t) := by
      simp [encode, hb]
    rw [he] at h ⊢
    cases k with
    | zero => simp at h
    | succ k =>
      have hk : (encode t).length ≤ k := by
        simp only [List.length_cons, List.length_append] at h
        omega
      simp only [cut, hc, ih hk, List.map_cons]

theorem parts_encode (t : Text) : parts (encode t) = t.map some := cut_encode t (Nat.le_refl _)

theorem lossy_encode (t : Text) : lossy (encode t) = t := by
  simp [lossy, parts_encode, Function.comp_def]

theorem strict_encode (t : Text) : strict (encode t) = some t := by
  rw [strict, parts_encode]
  induction t with
  | nil => rfl
  | cons c t ih => simp [ih]

end Utf8
end Triage
