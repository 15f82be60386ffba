import Mathlib.Data.List.Perm.Basic
import Triage.Proofs.Chain.Stages
import Triage.Proofs.SortedMap

set_option autoImplicit false

/-!
The order in which diagnostics arrive. Two of them leave a session in the same state whichever comes
first: counts of different files, codes or outcomes do not meet, and those of the same add up
(`Session.pass_comm`). So the state in which a session or a chain ends is told by the diagnostics
alone, and what a chain keeps by each of them.
-/

namespace Triage

namespace Tally

theorem bump_comm (m : SortedMap Code Nat) (c c' : Code) :
    bump (bump m c) c' = bump (bump m c') c :=
  m.alter_comm fun _ _ => rfl

theorem count_comm (v v' : Verdict) (c c' : Code) (t : Tally) :
    count v' c' (count v c t) = count v c (count v' c' t) := by
  cases v <;> cases v' <;> simp [count, raise, ignore, bump_comm]

end Tally

theorem Summary.update_comm (s : Summary) (path path' : Text) {f g : Tally → Tally}
    (h : ∀ t, g (f t) = f (g t)) :
    (s.update path f).update path' g = (s.update path' g).update path f :=
  s.alter_comm fun _ t => h (t.getD .blank)

namespace Session
variable {ds ds' : List Diagnostic}

theorem pass_comm (s : Session) (d d' : Diagnostic) :
    ((s.pass d).2.pass d').2 = ((s.pass d').2.pass d).2 := by
  cases hd : d.file with
  | none => rw [pass_none s hd, pass_none _ hd]
  | some path =>
    cases hd' : d'.file with
    | none => rw [pass_none s hd', pass_none _ hd']
    | some path' =>
      simp only [pass_some _ hd, pass_some _ hd']
      rw [Summary.update_comm s.summary path path' (Tally.count_comm _ _ _ _)]

instance : RightCommutative fun (s : Session) d => (s.pass d).2 := ⟨pass_comm⟩

theorem passAll_state (s : Session) (ds : List Diagnostic) :
    (s.passAll ds).2 = ds.foldl (fun s d => (s.pass d).2) s := by
  induction ds generalizing s with
  | nil => rfl
  | cons d ds ih => exact ih (s.pass d).2

theorem passAll_perm (s : Session) (h : ds.Perm ds') :
    (s.passAll ds).1.Perm (s.passAll ds').1 ∧ (s.passAll ds).2 = (s.passAll ds').2 := by
  constructor
  · rw [passAll_kept, passAll_kept]
    exact h.filterMap _
  · rw [passAll_state, passAll_state]
    exact h.foldl_eq s

end Session

namespace Chain
variable {ds ds' : List Diagnostic}

/-- The induction is along the chain with the lists free: what one session keeps is handed to the
next in another order. -/
theorem stages_perm (chain : Chain) (h : ds.Perm ds') :
    (chain.stages ds).1.Perm (chain.stages ds').1 ∧
      (chain.stages ds).2 = (chain.stages ds').2 := by
  induction chain generalizing ds ds' with
  | nil => exact ⟨h, rfl⟩
  | cons s rest ih =>
    obtain ⟨hk, hs⟩ := s.passAll_perm h
    obtain ⟨hout, hrest⟩ := ih hk
    simp only [stages]
    exact ⟨hout, by rw [hs, hrest]⟩

/-- The order of arrival does not matter, whatever the sessions have counted before. The same
diagnostics in another order are kept, every session of the chain ends in the same state, and so its
summary is the same, with the rules that it marks. -/
theorem sieve_perm (chain : Chain) (h : ds.Perm ds') :
    let run := chain.sieve ds
    let run' := chain.sieve ds'
    run.1.Perm run'.1 ∧ run.2 = run'.2 ∧
      run.2.map Session.report = run'.2.map Session.report := by
  obtain ⟨hk, hs⟩ := chain.stages_perm h
  simp only [sieve_stages]
  exact ⟨hk, hs, congrArg (List.map Session.report) hs⟩

/-- Two sessions, and four diagnostics turned round. The second session drops what the first made a
warning, and one rule of the first took no effect. -/
theorem sieve_perm_reversed :
    let a := "/a".toList
    let note (file : Option Text) (c : Code) : Diagnostic := ⟨file, none, none, c, .error, []⟩
    let first : FileRules := ⟨.all, .ofList [(1, .asWarning), (2, .ignore), (3, .ignore)]⟩
    let chain : Chain :=
      [.start (.ofList [(a, first)]), .start (.ofList [(a, ⟨.onlyErrors, .empty⟩)])]
    let ds := [note (some a) 1, note (some a) 2, note none 2, note (some a) 4]
    let run := chain.sieve ds
    let run' := chain.sieve ds.reverse
    run.1.Perm run'.1 ∧ run.2 = run'.2 ∧
      run.1 = [note none 2, note (some a) 4] ∧ run'.1 = [note (some a) 4, note none 2] ∧
      run'.2.map (·.report.staleTotal) = [1, 0] := by
  intro a note first chain ds run run'
  obtain ⟨hk, hs, -⟩ := sieve_perm chain ds.reverse_perm.symm
  exact ⟨hk, hs, by decide, by decide, by decide⟩

end Chain
end Triage
