import Triage.Json.Quoted

set_option autoImplicit false

namespace Triage

namespace Text

theorem hexValue_hexDigit (upper : Bool) {k : Nat} (h : k < 16) :
    hexValue (hexDigit upper k) = k := by
  have hk : ∀ upper : Bool, ∀ k : Fin 16, hexValue (hexDigit upper k) = k := by decide
  exact hk upper ⟨k, h⟩

theorem isHex_hexDigit (upper : Bool) {k : Nat} (h : k < 16) :
    isHex (hexDigit upper k) = true := by
  have hk : ∀ upper : Bool, ∀ k : Fin 16, isHex (hexDigit upper k) = true := by decide
  exact hk upper ⟨k, h⟩

theorem hexNumber_hexFour (upper : Bool) {n : Nat} (h : n < 65536) :
    hexNumber (hexFour upper n) = n := by
  have h₁ := hexValue_hexDigit upper (Nat.mod_lt (n / 4096) (by decide : 0 < 16))
  have h₂ := hexValue_hexDigit upper (Nat.mod_lt (n / 256) (by decide : 0 < 16))
  have h₃ := hexValue_hexDigit upper (Nat.mod_lt (n / 16) (by decide : 0 < 16))
  have h₄ := hexValue_hexDigit upper (Nat.mod_lt n (by decide : 0 < 16))
  simp only [hexNumber, hexFour, List.foldl_cons, List.foldl_nil, h₁, h₂, h₃, h₄]
  omega

end Text

namespace Json

/-- How a character is spelled: behind a backslash, by its number, or as it is. -/
theorem escapeChar_cases (c : Char) :
    (∃ e, plainEscape? e = some c ∧ e ≠ 'u' ∧ escapeChar c = ['\\', e]) ∨
    (c.toNat < 0x20 ∧ escapeChar c = '\\' :: 'u' :: Text.hexFour false c.toNat) ∨
    (c ≠ '"' ∧ c ≠ '\\' ∧ 0x20 ≤ c.toNat ∧ escapeChar c = [c]) := by
  unfold escapeChar
  split
  · next h => exact .inl ⟨'"', by simp [h, plainEscape?], by decide, rfl⟩
  split
  · next h => exact .inl ⟨'\\', by simp [h, plainEscape?], by decide, rfl⟩
  split
  · next h => exact .inl ⟨'n', by simp [h, plainEscape?], by decide, rfl⟩
  split
  · next h => exact .inl ⟨'r', by simp [h, plainEscape?], by decide, rfl⟩
  split
  · next h => exact .inl ⟨'t', by simp [h, plainEscape?], by decide, rfl⟩
  split
  · next h => exact .inl ⟨'b', by simp [h, plainEscape?], by decide, rfl⟩
  split
  · next h => exact .inl ⟨'f', by simp [h, plainEscape?], by decide, rfl⟩
  split
  · next h => exact .inr (.inl ⟨h, rfl⟩)
  · next hq hb _ _ _ _ _ hc => exact .inr (.inr ⟨hq, hb, Nat.le_of_not_lt hc, rfl⟩)

/-- A number that is no surrogate stands for its character, whatever follows. -/
theorem unescape_number {a b c d : Char} {n : Nat} (hn : Text.hexNumber [a, b, c, d] = n)
    (hh : isHighSurrogate n = false) (hl : isLowSurrogate n = false) (r : Text) :
    unescape ('\\' :: 'u' :: a :: b :: c :: d :: r) = (unescape r).map (Char.ofNat n :: ·) := by
  rw [unescape.eq_def]
  simp [hn, hh, hl]

theorem unescape_escapeChar (c : Char) (r : Text) :
    unescape (escapeChar c ++ r) = (unescape r).map (c :: ·) := by
  rcases escapeChar_cases c with ⟨e, he, hu, hs⟩ | ⟨hn, hs⟩ | ⟨-, hb, -, hs⟩
  · simp [hs, unescape, he, hu]
  · have hx := Text.hexNumber_hexFour false (n := c.toNat) (by omega)
    have hh : isHighSurrogate c.toNat = false := by
      simp only [isHighSurrogate, Bool.and_eq_false_iff, decide_eq_false_iff_not]
      omega
    have hl : isLowSurrogate c.toNat = false := by
      simp only [isLowSurrogate, Bool.and_eq_false_iff, decide_eq_false_iff_not]
      omega
    rw [hs]
    exact (unescape_number hx hh hl r).trans (by rw [Char.ofNat_toNat])
  · simp [hs, unescape, hb]

theorem unescape_escape (t : Text) : unescape (escape t) = some t := by
  induction t with
  | nil => rfl
  | cons c t ih =>
    rw [escape, List.flatMap_cons, unescape_escapeChar]
    exact congrArg (Option.map (c :: ·)) ih

theorem takeQuoted_escapeChar (c : Char) (r : Text) :
    takeQuoted (escapeChar c ++ r) = (takeQuoted r).map fun s => (escapeChar c ++ s.1, s.2) := by
  rcases escapeChar_cases c with ⟨e, he, hu, hs⟩ | ⟨-, hs⟩ | ⟨hq, hb, hn, hs⟩
  · simp [hs, takeQuoted, he, hu]
  · have hx (k : Nat) := Text.isHex_hexDigit false (Nat.mod_lt k (by decide : 0 < 16))
    simp [hs, Text.hexFour, takeQuoted, hx]
  · simp [hs, takeQuoted, hb, Nat.not_lt.2 hn]

/-- The closing quote is found behind the spelling of a text, whatever follows it. -/
theorem takeQuoted_escape (t r : Text) :
    takeQuoted (escape t ++ '"' :: r) = some (escape t, r) := by
  induction t with
  | nil => rfl
  | cons c t ih =>
    simp only [escape, List.flatMap_cons, List.append_assoc] at ih ⊢
    rw [takeQuoted_escapeChar, ih]
    rfl

/-- What has neither quotes nor backslashes nor control characters in it is spelled as it is. -/
theorem escape_of_plain {t : Text} (h : ∀ c ∈ t, c ≠ '"' ∧ c ≠ '\\' ∧ 0x20 ≤ c.toNat) :
    escape t = t := by
  induction t with
  | nil => rfl
  | cons c t ih =>
    obtain ⟨hq, hb, hn⟩ := h c (by simp)
    have hc : ∀ d : Char, d.toNat < 0x20 → c ≠ d := fun d hd e => by rw [e] at hn; omega
    have hs : escapeChar c = [c] := by
      simp [escapeChar, hq, hb, hc, Nat.not_lt.2 hn]
    rw [escape, List.flatMap_cons, hs]
    exact congrArg (c :: ·) (ih fun d hd => h d (by simp [hd]))

end Json
end Triage
