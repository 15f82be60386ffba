import Mathlib.Data.List.Forall2
import Triage.Proofs.Chain.Slice

set_option autoImplicit false

namespace Triage

section Agreement
variable {path : Text} {c : Code} {rules rules' : ProjectRules} {ds ds' : List Diagnostic}

theorem agreeOn_slice (h : ProjectRules.AgreeAt path c rules rules') (ds : List Diagnostic) :
    rules'.AgreeOn rules (slice path c ds) := by
  intro d hd
  obtain ⟨_, hf, hc⟩ := mem_slice.1 hd
  exact h.verdict hf hc

theorem slice_kept_of_agreeAt (h : ProjectRules.AgreeAt path c rules rules')
    (hs : slice path c ds = slice path c ds') :
    slice path c ((Session.start rules).passAll ds).1 =
      slice path c ((Session.start rules').passAll ds').1 := by
  rw [Session.slice_passAll, Session.slice_passAll, ← hs]
  exact (agreeOn_slice h ds).filterMap_under

structure Session.CountAlike (path : Text) (c : Code) (s s' : Session) : Prop where
  raised : s.report.raisedAt path c = s'.report.raisedAt path c
  ignored : s.report.ignoredAt path c = s'.report.ignoredAt path c

theorem countAlike_of_agreeAt (h : ProjectRules.AgreeAt path c rules rules')
    (hs : slice path c ds = slice path c ds') :
    Session.CountAlike path c ((Session.start rules).passAll ds).2
      ((Session.start rules').passAll ds').2 where
  raised := by
    rw [Session.raisedAt_passAll, Session.raisedAt_passAll, raisedCount_slice, raisedCount_slice,
      ← hs]
    exact (agreeOn_slice h ds).countP fun _ v => v ≠ .ignore
  ignored := by
    rw [Session.ignoredAt_passAll, Session.ignoredAt_passAll, ignoredCount_slice,
      ignoredCount_slice, ← hs]
    exact (agreeOn_slice h ds).countP fun _ v => v = .ignore

end Agreement

namespace Chain
variable {path : Text} {c : Code} {projects projects' : List ProjectRules}
  {ds ds' : List Diagnostic}

/-- The induction is along both chains at once; the lists are free in it, since the next sessions
see what is kept, of which only the slices agree. -/
theorem stages_local (h : List.Forall₂ (ProjectRules.AgreeAt path c) projects projects')
    (hs : slice path c ds = slice path c ds') :
    let run := stages (projects.map Session.start) ds
    let run' := stages (projects'.map Session.start) ds'
    slice path c run.1 = slice path c run'.1 ∧
      List.Forall₂ (Session.CountAlike path c) run.2 run'.2 := by
  induction h generalizing ds ds' with
  | nil => exact ⟨hs, .nil⟩
  | cons hr _ ih =>
    obtain ⟨hk, hc⟩ := ih (slice_kept_of_agreeAt hr hs)
    exact ⟨hk, .cons (countAlike_of_agreeAt hr hs) hc⟩

/-- Rules do not reach across files or codes: two chains whose rules agree on a file and a code, run
over lists that agree on it, keep the same diagnostics of it and count the same for it, session by
session. -/
theorem sieve_local (h : List.Forall₂ (ProjectRules.AgreeAt path c) projects projects')
    (hs : slice path c ds = slice path c ds') :
    let run := sieve (projects.map Session.start) ds
    let run' := sieve (projects'.map Session.start) ds'
    slice path c run.1 = slice path c run'.1 ∧
      List.Forall₂ (fun s s' => s.report.raisedAt path c = s'.report.raisedAt path c ∧
        s.report.ignoredAt path c = s'.report.ignoredAt path c) run.2 run'.2 := by
  obtain ⟨hk, hc⟩ := stages_local h hs
  simp only [sieve_stages]
  exact ⟨hk, hc.imp fun _ _ h => ⟨h.raised, h.ignored⟩⟩

/-- Two sessions over mixed lists. What is kept of the code is raised by the first session and let
pass by the second, and one suggestion goes through untouched. -/
theorem sieve_local_mixed :
    let a := "/a".toList
    let b := "/b".toList
    let note (file : Text) (c : Code) (s : Severity) : Diagnostic :=
      ⟨some file, none, none, c, s, []⟩
    let first : FileRules := ⟨.ignore, .ofList [(1, .asError)]⟩
    let left : List ProjectRules := [.ofList [(a, first)], .ofList [(a, ⟨.onlyErrors, .empty⟩)]]
    let right : List ProjectRules :=
      [.ofList [(a, { first with codes := first.codes.insert 2 .ignore }), (b, ⟨.ignore, .empty⟩)],
        .ofList [(a, ⟨.onlyErrors, .ofList [(3, .asWarning)]⟩)]]
    let run := sieve (left.map Session.start)
      [note a 1 .warning, note a 2 .error, note b 1 .error, note a 1 .suggestion]
    let run' := sieve (right.map Session.start)
      [note b 1 .warning, note a 1 .warning, note a 1 .suggestion, note a 3 .error]
    slice a 1 run.1 = slice a 1 run'.1 ∧
      List.Forall₂ (fun s s' => s.report.raisedAt a 1 = s'.report.raisedAt a 1 ∧
        s.report.ignoredAt a 1 = s'.report.ignoredAt a 1) run.2 run'.2 :=
  sieve_local (.cons ⟨by decide, by decide⟩ (.cons ⟨by decide, by decide⟩ .nil)) (by decide)

end Chain
end Triage
