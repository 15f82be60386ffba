import Triage.Proofs.SortedMap
import Triage.Report.Summary

set_option autoImplicit false

/-!
The order of codes in a group of a summary. Counts fall and, where they tie, codes rise, so between
any two entries of a map one way is right and the other wrong: the entries have one order only
(`ranking_iff`), and the lines of a group follow it (`Report.codeGroup_ranking`).
-/

namespace Triage

/-- A higher count or, where the counts tie, a smaller code. -/
def Outranks (a b : Code × Nat) : Prop := b.2 < a.2 ∨ a.2 = b.2 ∧ a.1 < b.1

/-- The entries of a map, each of them once, any two neighbours in order. -/
structure Ranking (m : SortedMap Code Nat) (l : List (Code × Nat)) : Prop where
  once : ∀ c n, l.count (c, n) = if m.get? c = some n then 1 else 0
  ordered : l.IsChain Outranks

section Order
variable {a b c : Code × Nat}

theorem Outranks.trans (hab : Outranks a b) (hbc : Outranks b c) : Outranks a c := by
  simp only [Outranks, UInt32.lt_iff_toNat_lt] at *
  omega

instance : Trans Outranks Outranks Outranks := ⟨Outranks.trans⟩

theorem Outranks.asymm (hab : Outranks a b) : ¬ Outranks b a := by
  simp only [Outranks, UInt32.lt_iff_toNat_lt] at *
  omega

theorem ranksBefore_iff : ranksBefore a b = true ↔ b.2 < a.2 ∨ a.2 = b.2 ∧ a.1 ≤ b.1 := by
  simp [ranksBefore]

theorem ranksBefore_trans (hab : ranksBefore a b = true) (hbc : ranksBefore b c = true) :
    ranksBefore a c = true := by
  simp only [ranksBefore_iff, UInt32.le_iff_toNat_le] at *
  omega

theorem ranksBefore_total (a b : Code × Nat) : (ranksBefore a b || ranksBefore b a) = true := by
  simp only [Bool.or_eq_true, ranksBefore_iff, UInt32.le_iff_toNat_le]
  omega

theorem outranks_of_ranksBefore (h : ranksBefore a b = true) (hne : a.1 ≠ b.1) : Outranks a b := by
  rcases ranksBefore_iff.1 h with h | ⟨hcount, hcode⟩
  · exact .inl h
  · exact .inr ⟨hcount, UInt32.lt_of_le_of_ne hcode hne⟩

end Order

section Ranked
variable (m : SortedMap Code Nat)

theorem ranked_perm : (ranked m).Perm m.entries := List.mergeSort_perm _ _

theorem pairwise_ranked : (ranked m).Pairwise Outranks := by
  have hsort : (ranked m).Pairwise fun a b => ranksBefore a b = true :=
    List.pairwise_mergeSort (fun a b c => @ranksBefore_trans a b c) ranksBefore_total m.entries
  have hcodes : (ranked m).Pairwise fun a b => a.1 ≠ b.1 :=
    List.pairwise_map.1 (((ranked_perm m).map Prod.fst).nodup_iff.2 m.nodup_keys)
  exact hsort.imp₂ (fun _ _ => outranks_of_ranksBefore) hcodes

theorem count_entries (c : Code) (n : Nat) :
    m.entries.count (c, n) = if m.get? c = some n then 1 else 0 := by
  have hn : m.entries.Nodup := List.Nodup.of_map Prod.fst m.nodup_keys
  split
  · next h => exact List.count_eq_one_of_mem hn (SortedMap.get?_eq_some_iff.1 h)
  · next h => exact List.count_eq_zero_of_not_mem fun he => h (SortedMap.get?_eq_some_iff.2 he)

theorem ranking_ranked : Ranking m (ranked m) where
  once c n := by rw [(ranked_perm m).count_eq, count_entries]
  ordered := (pairwise_ranked m).isChain

theorem ranking_iff {l : List (Code × Nat)} : Ranking m l ↔ l = ranked m := by
  constructor
  · intro h
    have hperm : l.Perm (ranked m) := List.perm_iff_count.2 fun e => by
      rw [h.once, (ranking_ranked m).once]
    have hl : l.Pairwise Outranks := List.isChain_iff_pairwise.1 h.ordered
    exact hperm.eq_of_pairwise (fun a b _ _ hab hba => absurd hba hab.asymm) hl (pairwise_ranked m)
  · rintro rfl
    exact ranking_ranked m

end Ranked

namespace Report
open Styled

/-- The ranked codes of a map are its entries, each of them once, the higher counts first and ties
in the order of their codes. No other list is that, and the lines of a group stand in this order. -/
theorem codeGroup_ranking (m : SortedMap Code Nat) :
    Ranking m (ranked m) ∧ ∀ l, Ranking m l → l = ranked m ∧
      ∀ (message : Code → Text) (header : String),
        codeGroup message header m = if m.isEmpty then []
          else text (indent ++ header.toList ++ ['\n']) ++
            l.flatMap fun e => codeLine (countColumn e.2) e.1 (message e.1) := by
  refine ⟨ranking_ranked m, fun l h => ?_⟩
  obtain rfl := (ranking_iff m).1 h
  exact ⟨rfl, fun _ _ => rfl⟩

/-- Three codes tie, and the greatest count is not that of the least code. -/
theorem codeGroup_ranking_ties :
    let m : SortedMap Code Nat := .ofList [(7006, 2), (2322, 5), (2345, 2), (1005, 1), (18003, 2)]
    let l : List (Code × Nat) := [(2322, 5), (2345, 2), (7006, 2), (18003, 2), (1005, 1)]
    Ranking m l ∧ l = ranked m := by
  intro m l
  have hperm : l.Perm m.entries := by decide
  have h : Ranking m l := by
    refine ⟨fun c n => by rw [hperm.count_eq, count_entries], ?_⟩
    unfold Outranks
    decide
  exact ⟨h, ((codeGroup_ranking m).2 l h).1⟩

end Report
end Triage
