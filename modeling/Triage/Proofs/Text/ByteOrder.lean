import Mathlib.Tactic.SplitIfs
import Triage.Proofs.Text.Utf8
import Triage.SortedMap

set_option autoImplicit false

namespace Triage.Utf8

def lead (n : Nat) : Nat :=
  if n ≤ 0x7f then n
  else if n ≤ 0x7ff then n / 64 % 32 + 0xC0
  else if n ≤ 0xffff then n / 4096 % 16 + 0xE0
  else n / 262144 % 8 + 0xF0

def tails (n : Nat) : Bytes :=
  let tail (m : Nat) := UInt8.ofNat (m % 64 + 0x80)
  if n ≤ 0x7f then []
  else if n ≤ 0x7ff then [tail n]
  else if n ≤ 0xffff then [tail (n / 64), tail n]
  else [tail (n / 4096), tail (n / 64), tail n]

theorem utf8EncodeChar_eq (c : Char) :
    String.utf8EncodeChar c = UInt8.ofNat (lead c.toNat) :: tails c.toNat := by
  simp only [String.utf8EncodeChar, lead, tails, Char.toNat_val]
  split_ifs <;> rfl

section Bytes
variable {m n : Nat} {r r' : Bytes}

theorem cons_lt_cons (hn : n < 256) (hle : m ≤ n) (h : m = n → r < r') :
    UInt8.ofNat m :: r < UInt8.ofNat n :: r' := by
  rw [List.cons_lt_cons_iff]
  rcases Nat.lt_or_eq_of_le hle with hlt | heq
  · left
    rw [UInt8.lt_iff_toNat_lt, toNat_byte (by omega), toNat_byte hn]
    exact hlt
  · exact .inr ⟨congrArg UInt8.ofNat heq, h heq⟩

theorem lead_lt (hn : n < 0x110000) : lead n < 256 := by
  unfold lead
  split_ifs <;> omega

theorem lead_le (h : m < n) (hn : n < 0x110000) : lead m ≤ lead n := by
  unfold lead
  split_ifs <;> omega

theorem lead_class (n : Nat) : (n ≤ 0x7f ↔ lead n < 0x80) ∧ (n ≤ 0x7ff ↔ lead n < 0xE0) ∧
    (n ≤ 0xffff ↔ lead n < 0xF0) := by
  unfold lead
  split_ifs <;> omega

theorem tails_lt (h : m < n) (hn : n < 0x110000) (hl : lead m = lead n) (r r' : Bytes) :
    tails m ++ r < tails n ++ r' := by
  obtain ⟨n₁, n₂, n₃⟩ := lead_class n
  have hm := lead_class m
  rw [hl, ← n₁, ← n₂, ← n₃] at hm
  obtain ⟨h₁, h₂, h₃⟩ := hm
  simp only [lead, tails, h₁, h₂, h₃] at hl ⊢
  by_cases c₁ : n ≤ 0x7f
  · simp only [if_pos c₁] at hl
    omega
  · simp only [if_neg c₁] at hl ⊢
    by_cases c₂ : n ≤ 0x7ff
    · simp only [if_pos c₂] at hl ⊢
      exact cons_lt_cons (by omega) (by omega) (by omega)
    · simp only [if_neg c₂] at hl ⊢
      by_cases c₃ : n ≤ 0xffff
      · simp only [if_pos c₃] at hl ⊢
        exact cons_lt_cons (by omega) (by omega) fun _ =>
          cons_lt_cons (by omega) (by omega) (by omega)
      · simp only [if_neg c₃] at hl ⊢
        exact cons_lt_cons (by omega) (by omega) fun _ =>
          cons_lt_cons (by omega) (by omega) fun _ =>
            cons_lt_cons (by omega) (by omega) (by omega)

theorem utf8EncodeChar_lt {c d : Char} (h : c < d) (r r' : Bytes) :
    String.utf8EncodeChar c ++ r < String.utf8EncodeChar d ++ r' := by
  have hv : d.toNat < 0xD800 ∨ 0xDFFF < d.toNat ∧ d.toNat < 0x110000 := d.valid
  have hd : d.toNat < 0x110000 := by omega
  have hcd : c.toNat < d.toNat := h
  rw [utf8EncodeChar_eq, utf8EncodeChar_eq]
  exact cons_lt_cons (lead_lt hd) (lead_le hcd hd) fun hl => tails_lt hcd hd hl r r'

end Bytes

theorem encode_cons (c : Char) (t : Text) :
    encode (c :: t) = String.utf8EncodeChar c ++ encode t := by
  simp [encode]

theorem encode_lt {s t : Text} (h : s < t) : encode s < encode t := by
  induction h with
  | @nil c t =>
    rw [encode_cons, utf8EncodeChar_eq]
    exact List.nil_lt_cons _ _
  | cons h ih =>
    rw [encode_cons, encode_cons]
    exact List.append_left_lt ih
  | rel h =>
    rw [encode_cons, encode_cons]
    exact utf8EncodeChar_lt h _ _

theorem encode_lt_iff {s t : Text} : encode s < encode t ↔ s < t := by
  refine ⟨fun h => ?_, encode_lt⟩
  rcases Classical.em (s < t) with hlt | hge
  · exact hlt
  · rcases Classical.em (s = t) with rfl | hne
    · exact absurd h (List.lt_irrefl _)
    · exact absurd (List.lt_trans h (encode_lt (KeyOrder.connected hne hge))) (List.lt_irrefl _)

end Triage.Utf8
