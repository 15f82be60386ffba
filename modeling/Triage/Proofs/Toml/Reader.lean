import Triage.Settings.Document
import Triage.Proofs.Toml.Quoted

set_option autoImplicit false

namespace Triage.Toml
open Settings

section Values
variable {n depth : Nat} {r : Text}

theorem quote_cons (t : Text) : ∃ q s, quote t = q :: s ∧ (q = '"' ∨ q = '\'') := by
  unfold quote
  dsimp only
  split
  · exact ⟨_, _, rfl, .inl rfl⟩
  split
  · exact ⟨_, _, rfl, .inr rfl⟩
  split
  · exact ⟨_, _, rfl, .inl rfl⟩
  split
  · exact ⟨_, _, rfl, .inr rfl⟩
  split
  · exact ⟨_, _, rfl, .inl rfl⟩
  · exact ⟨_, _, rfl, .inl rfl⟩

theorem takeValue_quote (t : Text) (hn : 0 < n) (hr : ∀ q ∈ r.head?, q ≠ '"' ∧ q ≠ '\'') :
    takeValue n depth (quote t ++ r) = some (.string t, r) := by
  obtain ⟨n, rfl⟩ := Nat.exists_eq_add_one.2 hn
  have h := takeQuoted_quote t hr
  obtain ⟨q, s, hs, rfl | rfl⟩ := quote_cons t <;>
  · rw [hs, List.cons_append] at h ⊢
    rw [takeValue, h]
    rfl

theorem takeValue_flag (b : Bool) (hn : 0 < n) (r : Text) :
    takeValue n depth (flagText b ++ '\n' :: r) = some (.boolean b, '\n' :: r) := by
  obtain ⟨n, rfl⟩ := Nat.exists_eq_add_one.2 hn
  cases b <;> rfl

theorem skipFill_quote (t r : Text) : skipFill false (quote t ++ r) = some (quote t ++ r) := by
  obtain ⟨q, s, hs, rfl | rfl⟩ := quote_cons t <;>
  · rw [hs]
    rfl

theorem takeItems_comma {s t : Text} (hn : 0 < n)
    (hs : skipFill false s = some (quote t ++ ',' :: r)) :
    takeItems (n + 1) depth s = (takeItems n depth r).map fun p => (.string t :: p.1, p.2) := by
  have hv : takeValue n depth (quote t ++ ',' :: r) = some (.string t, ',' :: r) :=
    takeValue_quote t hn (by simp)
  rw [takeItems, hs]
  obtain ⟨q, a, ha, rfl | rfl⟩ := quote_cons t <;>
  · rw [ha, List.cons_append] at hv ⊢
    simp [hv, skipFill, isGap]

theorem takeItems_last {s t : Text} (hn : 0 < n)
    (hs : skipFill false s = some (quote t ++ ']' :: r)) :
    takeItems (n + 1) depth s = some ([.string t], r) := by
  have hv : takeValue n depth (quote t ++ ']' :: r) = some (.string t, ']' :: r) :=
    takeValue_quote t hn (by simp)
  rw [takeItems, hs]
  obtain ⟨q, a, ha, rfl | rfl⟩ := quote_cons t <;>
  · rw [ha, List.cons_append] at hv ⊢
    simp [hv, skipFill, isGap]

def itemLines (ts : List Text) : Text := ts.flatMap fun t => "\n    ".toList ++ quote t ++ [',']

theorem itemLines_cons (t : Text) (ts : List Text) :
    itemLines (t :: ts) = "\n    ".toList ++ (quote t ++ ',' :: itemLines ts) := by
  simp [itemLines]

theorem takeItems_itemLines (ts : List Text) (r : Text) (hn : (itemLines ts).length + 1 < n) :
    takeItems n depth (itemLines ts ++ '\n' :: ']' :: r) = some (ts.map .string, r) := by
  obtain ⟨n, rfl⟩ := Nat.exists_eq_add_one.2 (Nat.zero_lt_of_lt hn)
  induction ts generalizing n with
  | nil => rfl
  | cons t ts ih =>
    simp only [itemLines_cons, List.length_append, List.length_cons] at hn
    obtain ⟨n, rfl⟩ := Nat.exists_eq_add_one.2 (by omega : 0 < n)
    have hs : skipFill false (itemLines (t :: ts) ++ '\n' :: ']' :: r) =
        some (quote t ++ ',' :: (itemLines ts ++ '\n' :: ']' :: r)) := by
      rw [itemLines_cons, List.append_assoc, List.append_assoc]
      exact skipFill_quote t _
    rw [takeItems_comma (Nat.zero_lt_succ n) hs, ih n (by omega)]
    rfl

theorem takeValue_listText (ts : List Text) (hn : (listText ts).length < n) (r : Text) :
    takeValue n (depth + 1) (listText ts ++ r) = some (.array (ts.map .string), r) := by
  obtain ⟨n, rfl⟩ := Nat.exists_eq_add_one.2 (Nat.zero_lt_of_lt hn)
  suffices h : ∃ s, listText ts = '[' :: s ∧
      takeItems n depth (s ++ r) = some (ts.map .string, r) by
    obtain ⟨s, hs, hi⟩ := h
    rw [hs, List.cons_append, takeValue, hi]
    rfl
  match ts with
  | [] =>
    obtain ⟨n, rfl⟩ := Nat.exists_eq_add_one.2 (Nat.zero_lt_of_lt (Nat.lt_of_succ_lt_succ hn))
    exact ⟨_, rfl, rfl⟩
  | [t] =>
    simp only [listText, List.length_append, List.length_cons, List.length_nil] at hn
    obtain ⟨n, rfl⟩ := Nat.exists_eq_add_one.2 (by omega : 0 < n)
    refine ⟨quote t ++ [']'], rfl, ?_⟩
    rw [List.append_assoc]
    exact takeItems_last (by omega) (skipFill_quote t _)
  | t :: t' :: ts =>
    have hl : listText (t :: t' :: ts) = '[' :: (itemLines (t :: t' :: ts) ++ ['\n', ']']) := rfl
    simp only [hl, List.length_append, List.length_cons, List.length_nil] at hn
    refine ⟨_, hl, ?_⟩
    rw [List.append_assoc]
    exact takeItems_itemLines _ r (by omega)

end Values

section Keys
variable {k r : Text}

structure Bare (k : Text) : Prop where
  ne_nil : k ≠ []
  bare : ∀ c ∈ k, isBare c = true

instance (k : Text) : Decidable (Bare k) :=
  decidable_of_iff (k ≠ [] ∧ k.all isBare = true)
    ⟨fun h => ⟨h.1, List.all_eq_true.1 h.2⟩, fun h => ⟨h.ne_nil, List.all_eq_true.2 h.bare⟩⟩

theorem isBare_ne {c d : Char} (hc : isBare c = true) (hd : isBare d = false) : c ≠ d := by
  rintro rfl
  simp [hc] at hd

theorem Bare.cons (hk : Bare k) : ∃ c k', k = c :: k' ∧ isBare c = true := by
  cases k with
  | nil => exact absurd rfl hk.ne_nil
  | cons c k => exact ⟨c, k, rfl, hk.bare c (by simp)⟩

theorem isGap_of_isBare {c : Char} (hc : isBare c = true) : isGap c = false := by
  simp [isGap, isBare_ne hc (d := ' ') (by decide), isBare_ne hc (d := '\t') (by decide)]

theorem takeKey_bare (hk : Bare k) (hr : r.head?.any isBare = false) {r' : Text}
    (hg : skipGap r = r') (hdot : r'.head? ≠ some '.') :
    takeKey limit (k ++ r) = some (⟨[], k⟩, r') := by
  obtain ⟨htake, hdrop⟩ := Text.run_append hk.bare hr
  obtain ⟨c, k', rfl, hc⟩ := hk.cons
  have hd : c ≠ '"' := isBare_ne hc (by decide)
  have hs : c ≠ '\'' := isBare_ne hc (by decide)
  have hp : takePart (skipGap (c :: k' ++ r)) = some (c :: k', r) := by
    rw [List.cons_append, skipGap, List.dropWhile_cons_of_neg (by simp [isGap_of_isBare hc])]
    rw [List.cons_append] at htake hdrop
    rw [takePart, htake, hdrop]
    · simpa using hd
    · simpa using hs
  rw [limit, takeKey, hp]
  cases r' with
  | nil => simp [hg]
  | cons d r' =>
    have hne : d ≠ '.' := fun e => hdot (by rw [e]; rfl)
    simp [hg, hne]

end Keys

end Triage.Toml
