import Triage.Diagnostic
import Triage.SortedMap

set_option autoImplicit false

namespace Triage

def total {α : Type} (f : α → Nat) : List α → Nat
  | [] => 0
  | a :: r => f a + total f r

theorem total_eq_zero {α : Type} {f : α → Nat} {l : List α} (h : ∀ a ∈ l, f a = 0) :
    total f l = 0 := by
  induction l with
  | nil => rfl
  | cons a r ih => simp [total, h, ih fun b hb => h b (by simp [hb])]

structure Tally where
  raised : SortedMap Code Nat
  ignored : SortedMap Code Nat
  stale : SortedSet Code
  /-- The default is to ignore, and nothing was ignored. -/
  staleDefault : Bool
  deriving DecidableEq

namespace Tally

def blank : Tally := ⟨.empty, .empty, .empty, false⟩

instance : Inhabited Tally := ⟨blank⟩

def bump (m : SortedMap Code Nat) (c : Code) : SortedMap Code Nat := m.alter c (·.getD 0 + 1)

def raise (c : Code) (t : Tally) : Tally := { t with raised := bump t.raised c }

def ignore (c : Code) (t : Tally) : Tally := { t with ignored := bump t.ignored c }

def count (v : Verdict) (c : Code) : Tally → Tally :=
  match v with
  | .report _ => raise c
  | .ignore => ignore c

def raisedTotal (t : Tally) : Nat := total id t.raised.values

def ignoredTotal (t : Tally) : Nat := total id t.ignored.values

def staleTotal (t : Tally) : Nat := t.stale.size + t.staleDefault.toNat

theorem staleTotal_eq_zero {t : Tally} (hs : ∀ c, t.stale.contains c ≠ true)
    (hd : t.staleDefault ≠ true) : t.staleTotal = 0 := by
  have he : t.stale.isEmpty = true := SortedMap.isEmpty_iff.2 fun c => by
    simpa [SortedMap.contains] using hs c
  have hz : t.stale.size = 0 := by
    simpa [SortedMap.size, SortedMap.isEmpty] using he
  simp [staleTotal, hz, hd]

def hasStale (t : Tally) : Bool := 0 < t.staleTotal

def isReportable (t : Tally) : Bool := !t.ignored.isEmpty || !t.raised.isEmpty || t.hasStale

end Tally

abbrev Summary := SortedMap Text Tally

namespace Summary

/-- Changes the tally of a file, which is blank before its first change. -/
def update (s : Summary) (path : Text) (f : Tally → Tally) : Summary :=
  s.alter path fun t => f (t.getD .blank)

def reportable (s : Summary) : Summary := s.filter fun _ t => t.isReportable

def raisedTotal (s : Summary) : Nat := total Tally.raisedTotal s.values

def ignoredTotal (s : Summary) : Nat := total Tally.ignoredTotal s.values

def staleTotal (s : Summary) : Nat := total Tally.staleTotal s.values

end Summary

/-- Higher counts come first, equal counts in the order of their codes. -/
def ranksBefore (a b : Code × Nat) : Bool := b.2 < a.2 || (a.2 == b.2 && a.1 ≤ b.1)

def ranked (m : SortedMap Code Nat) : List (Code × Nat) := m.entries.mergeSort ranksBefore

end Triage
