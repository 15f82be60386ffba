import Triage.Proofs.Rule.Verdict
import Triage.Proofs.Session.Account

set_option autoImplicit false

namespace Triage

theorem SortedMap.total_alterAt {κ ν : Type} [LT κ] [DecidableEq κ] [DecidableLT κ] [KeyOrder κ]
    (f : ν → Nat) (k : κ) (g : Option ν → ν) {l : List (κ × ν)}
    (h : l.Pairwise fun a b => a.1 < b.1) :
    total f ((alterAt k g l).map (·.2)) + (find k l).elim 0 f =
      total f (l.map (·.2)) + f (g (find k l)) := by
  induction l with
  | nil => simp [alterAt, find, total]
  | cons a r ih =>
    obtain ⟨j, v⟩ := a
    obtain ⟨hj, hr⟩ := List.pairwise_cons.1 h
    have ih := ih hr
    by_cases hk : k = j
    · subst hk
      simp only [alterAt, find, if_true, List.map_cons, total, Option.elim_some]
      omega
    · by_cases hlt : k < j
      · -- the key goes in front of a larger one, so the order says that it is new
        have hn : find k r = none := find_eq_none fun e he => KeyOrder.trans hlt (hj e he)
        simp only [alterAt, find, hk, hlt, hn, if_false, if_true, List.map_cons, total,
          Option.elim_none]
        omega
      · simp only [alterAt, find, hk, hlt, if_false, List.map_cons, total]
        omega

theorem SortedMap.total_alter {κ ν : Type} [LT κ] [DecidableEq κ] [DecidableLT κ] [KeyOrder κ]
    (m : SortedMap κ ν) (f : ν → Nat) (k : κ) (g : Option ν → ν) :
    total f (m.alter k g).values + (m.get? k).elim 0 f = total f m.values + f (g (m.get? k)) :=
  total_alterAt f k g m.sorted

namespace Tally

theorem total_bump (m : SortedMap Code Nat) (c : Code) :
    total id (bump m c).values = total id m.values + 1 := by
  have h := m.total_alter id c (·.getD 0 + 1)
  change total id (bump m c).values + _ = _ at h
  cases hc : m.get? c with
  | none => simpa [hc] using h
  | some n =>
    simp only [hc, Option.elim_some, Option.getD_some, id] at h
    omega

theorem raisedTotal_count (v : Verdict) (c : Code) (t : Tally) :
    (count v c t).raisedTotal = t.raisedTotal + if v = .ignore then 0 else 1 := by
  cases v with
  | report s => simpa [count, raise, raisedTotal] using total_bump t.raised c
  | ignore => simp [count, ignore, raisedTotal]

theorem ignoredTotal_count (v : Verdict) (c : Code) (t : Tally) :
    (count v c t).ignoredTotal = t.ignoredTotal + if v = .ignore then 1 else 0 := by
  cases v with
  | report s => simp [count, raise, ignoredTotal]
  | ignore => simpa [count, ignore, ignoredTotal] using total_bump t.ignored c

end Tally

namespace Summary
variable {rules : ProjectRules} {seen : List Diagnostic} {sum : Summary}

def raisedAt (sum : Summary) (path : Text) (c : Code) : Nat :=
  ((sum.get? path).bind fun t => t.raised.get? c).getD 0

def ignoredAt (sum : Summary) (path : Text) (c : Code) : Nat :=
  ((sum.get? path).bind fun t => t.ignored.get? c).getD 0

theorem getD_recorded (n : Nat) : (recorded n).getD 0 = n := by
  by_cases h : n = 0 <;> simp [recorded, h]

theorem raisedAt_eq (sum : Summary) (path : Text) (c : Code) :
    sum.raisedAt path c = (((sum.get? path).getD .blank).raised.get? c).getD 0 := by
  cases h : sum.get? path <;> simp [raisedAt, h, Tally.blank]

theorem ignoredAt_eq (sum : Summary) (path : Text) (c : Code) :
    sum.ignoredAt path c = (((sum.get? path).getD .blank).ignored.get? c).getD 0 := by
  cases h : sum.get? path <;> simp [ignoredAt, h, Tally.blank]

theorem Accounts.raisedAt (h : sum.Accounts rules seen) (path : Text) (c : Code) :
    sum.raisedAt path c = rules.raisedCount seen path c := by
  rw [raisedAt_eq, (h.counts_getD path).raised, getD_recorded]

theorem Accounts.ignoredAt (h : sum.Accounts rules seen) (path : Text) (c : Code) :
    sum.ignoredAt path c = rules.ignoredCount seen path c := by
  rw [ignoredAt_eq, (h.counts_getD path).ignored, getD_recorded]

theorem total_update {f : Tally → Nat} (hb : f .blank = 0) (s : Summary) (path : Text)
    (g : Tally → Tally) :
    total f (s.update path g).values + f ((s.get? path).getD .blank) =
      total f s.values + f (g ((s.get? path).getD .blank)) := by
  have h := s.total_alter f path fun t => g (t.getD .blank)
  cases ht : s.get? path with
  | none => simpa [update, ht, hb] using h
  | some t => simpa [update, ht] using h

/-- Changes that leave a figure of every file alone leave its total alone, new entries included. -/
theorem total_foldl_update {ε : Type} {f : Tally → Nat} (hb : f .blank = 0) (path : ε → Text)
    {g : ε → Tally → Tally} (hg : ∀ e t, f (g e t) = f t) (l : List ε) (s : Summary) :
    total f (l.foldl (fun s e => s.update (path e) (g e)) s).values = total f s.values := by
  induction l generalizing s with
  | nil => rfl
  | cons e l ih =>
    have h := total_update hb s (path e) (g e)
    rw [hg] at h
    rw [List.foldl_cons, ih]
    omega

theorem raisedTotal_count (s : Summary) (path : Text) (v : Verdict) (c : Code) :
    (s.update path (Tally.count v c)).raisedTotal =
      s.raisedTotal + if v = .ignore then 0 else 1 := by
  have h := total_update (f := Tally.raisedTotal) rfl s path (Tally.count v c)
  rw [Tally.raisedTotal_count] at h
  simp only [raisedTotal]
  omega

theorem ignoredTotal_count (s : Summary) (path : Text) (v : Verdict) (c : Code) :
    (s.update path (Tally.count v c)).ignoredTotal =
      s.ignoredTotal + if v = .ignore then 1 else 0 := by
  have h := total_update (f := Tally.ignoredTotal) rfl s path (Tally.count v c)
  rw [Tally.ignoredTotal_count] at h
  simp only [ignoredTotal]
  omega

end Summary

namespace Session
variable {rules : ProjectRules} {seen : List Diagnostic} {s : Session}

/-- The totals of a summary, told from what was seen: only what has a file is counted, and nothing
else is ever dropped. -/
structure Balances (rules : ProjectRules) (seen : List Diagnostic) (s : Session) : Prop where
  rules_eq : s.rules = rules
  raised : s.summary.raisedTotal =
    seen.countP fun d => d.file.isSome ∧ rules.verdict d ≠ .ignore
  ignored : s.summary.ignoredTotal = seen.countP fun d => rules.verdict d = .ignore

theorem Balances.start (rules : ProjectRules) : (start rules).Balances rules [] := by
  have h (f : Tally → Nat) (hb : f .blank = 0) : total f (Session.start rules).summary.values = 0 :=
    Summary.total_foldl_update hb id (fun _ _ => rfl) rules.keys .empty
  exact ⟨rfl, h _ rfl, h _ rfl⟩

theorem Balances.pass (h : s.Balances rules seen) (d : Diagnostic) :
    (s.pass d).2.Balances rules (seen ++ [d]) := by
  obtain ⟨rfl, hr, hi⟩ := h
  cases hf : d.file with
  | none =>
    have hv := s.rules.verdict_exempt (.inl hf)
    rw [pass_none s hf]
    exact ⟨rfl, by simp [hr, hf], by simp [hi, hv]⟩
  | some path =>
    rw [pass_some s hf]
    refine ⟨rfl, ?_, ?_⟩
    · rw [Summary.raisedTotal_count, hr, List.countP_append]
      by_cases hv : s.rules.verdict d = .ignore <;> simp [hf, hv]
    · rw [Summary.ignoredTotal_count, hi, List.countP_append]
      by_cases hv : s.rules.verdict d = .ignore <;> simp [hv]

theorem Balances.settle (h : s.Balances rules seen) : s.settle.Balances rules seen := by
  have ht (f : Tally → Nat) (hb : f .blank = 0) (hj : ∀ r t, f (judge r t) = f t) :
      total f s.settle.summary.values = total f s.summary.values :=
    Summary.total_foldl_update (g := fun e => judge e.2) hb Prod.fst (fun e => hj e.2)
      s.rules.entries s.summary
  exact ⟨h.rules_eq, (ht _ rfl fun _ _ => rfl).trans h.raised,
    (ht _ rfl fun _ _ => rfl).trans h.ignored⟩

end Session
end Triage
