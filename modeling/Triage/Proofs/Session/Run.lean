import Mathlib.Data.List.Forall2
import Triage.Proofs.Session.Account

set_option autoImplicit false

namespace Triage.Session

inductive Step where
  | pass (d : Diagnostic)
  | report

def step (s : Session) : Step → Session
  | .pass d => (s.pass d).2
  | .report => s.settle

def run (s : Session) (steps : List Step) : Session := steps.foldl step s

@[simp] theorem run_nil (s : Session) : s.run [] = s := rfl

@[simp] theorem run_cons (s : Session) (a : Step) (r : List Step) :
    s.run (a :: r) = (s.step a).run r := rfl

def shown : List Step → List Diagnostic
  | [] => []
  | .pass d :: r => d :: shown r
  | .report :: r => shown r

def answers (s : Session) : List Step → List Summary
  | [] => []
  | .pass d :: r => answers (s.pass d).2 r
  | .report :: r => s.report :: answers s.settle r

def pauses (seen : List Diagnostic) : List Step → List (List Diagnostic)
  | [] => []
  | .pass d :: r => pauses (seen ++ [d]) r
  | .report :: r => seen :: pauses seen r

theorem shown_map_pass (ds : List Diagnostic) : shown (ds.map .pass) = ds := by
  induction ds with
  | nil => rfl
  | cons d ds ih => simp [shown, ih]

variable {rules : ProjectRules} {seen : List Diagnostic} {s : Session}

theorem Tracks.step (h : s.Tracks rules seen) (a : Step) :
    (s.step a).Tracks rules (seen ++ shown [a]) := by
  cases a with
  | pass d => exact h.pass d
  | report => simpa [Session.step, shown] using h.settle

theorem Tracks.run (h : s.Tracks rules seen) (steps : List Step) :
    (s.run steps).Tracks rules (seen ++ shown steps) := by
  induction steps generalizing s seen with
  | nil => simpa [shown] using h
  | cons a r ih =>
    have hr := ih (h.step a)
    cases a <;> simpa [shown] using hr

theorem accounts_run (rules : ProjectRules) (steps : List Step) :
    ((start rules).run steps).report.Accounts rules (shown steps) :=
  ((Tracks.start rules).run steps).report

theorem Tracks.answers (h : s.Tracks rules seen) (steps : List Step) :
    List.Forall₂ (Summary.Accounts rules) (pauses seen steps) (s.answers steps) := by
  induction steps generalizing s seen with
  | nil => exact .nil
  | cons a r ih =>
    cases a with
    | pass d => exact ih (h.pass d)
    | report => exact .cons h.report (ih h.settle)

/-- A session accounts for exactly the diagnostics it was shown: its summary at the end is the one
that rules and diagnostics call for and that of a run without calls in between, and so is every
summary handed out on the way. -/
theorem run_accounts_exactly (rules : ProjectRules) (steps : List Step) :
    (∀ sum : Summary,
      sum.Accounts rules (shown steps) ↔ sum = ((start rules).run steps).report) ∧
    ((start rules).run steps).report = ((start rules).run ((shown steps).map .pass)).report ∧
    List.Forall₂ (Summary.Accounts rules) (pauses [] steps) ((start rules).answers steps) := by
  have h := accounts_run rules steps
  have hp := accounts_run rules ((shown steps).map .pass)
  rw [shown_map_pass] at hp
  refine ⟨fun sum => ⟨fun hs => hs.unique h, ?_⟩, h.unique hp, (Tracks.start rules).answers steps⟩
  rintro rfl
  exact h

end Triage.Session
