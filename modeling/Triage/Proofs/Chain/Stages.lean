import Triage.Proofs.Session.Account

set_option autoImplicit false

namespace Triage

def Session.passAll (s : Session) : List Diagnostic → List Diagnostic × Session
  | [] => ([], s)
  | d :: ds =>
    let (v, s) := s.pass d
    let (kept, s) := s.passAll ds
    ((d.under v).toList ++ kept, s)

namespace Session

theorem passAll_kept (s : Session) (ds : List Diagnostic) :
    (s.passAll ds).1 = ds.filterMap fun d => d.under (s.rules.verdict d) := by
  induction ds generalizing s with
  | nil => rfl
  | cons d ds ih =>
    have hr := pass_rules s d
    have hv := pass_verdict s d
    cases hd : d.under (s.rules.verdict d) <;> simp [passAll, ih, hr, hv, hd]

theorem Tracks.passAll {rules : ProjectRules} {seen : List Diagnostic} {s : Session}
    (h : s.Tracks rules seen) (ds : List Diagnostic) :
    (s.passAll ds).2.Tracks rules (seen ++ ds) := by
  induction ds generalizing s seen with
  | nil => simpa [Session.passAll] using h
  | cons d ds ih => simpa [Session.passAll] using ih (h.pass d)

theorem accounts_passAll (rules : ProjectRules) (ds : List Diagnostic) :
    ((start rules).passAll ds).2.report.Accounts rules ds :=
  ((Tracks.start rules).passAll ds).report

end Session

namespace Chain

/-- The first session over the whole list, then the second over what is left, and so on. -/
def stages : Chain → List Diagnostic → List Diagnostic × Chain
  | [], ds => (ds, [])
  | s :: rest, ds =>
    let (kept, s) := s.passAll ds
    let (out, rest) := stages rest kept
    (out, s :: rest)

@[simp] theorem sieve_nil (chain : Chain) : chain.sieve [] = ([], chain) := by
  cases chain <;> rfl

theorem sieve_cons (chain : Chain) (d : Diagnostic) (ds : List Diagnostic) :
    chain.sieve (d :: ds) =
      ((chain.pass d).1.toList ++ ((chain.pass d).2.sieve ds).1,
        ((chain.pass d).2.sieve ds).2) := by
  cases chain <;> rfl

theorem sieve_empty (ds : List Diagnostic) : sieve [] ds = (ds, []) := by
  induction ds with
  | nil => rfl
  | cons d ds ih => simp [sieve_cons, pass, ih]

/-- The loops change places at the first session. The induction is on the list with both the session
and the chain behind it free, since every diagnostic moves them. -/
theorem sieve_first (s : Session) (rest : Chain) (ds : List Diagnostic) :
    sieve (s :: rest) ds =
      ((sieve rest (s.passAll ds).1).1,
        (s.passAll ds).2 :: (sieve rest (s.passAll ds).1).2) := by
  induction ds generalizing s rest with
  | nil => simp [Session.passAll]
  | cons d ds ih =>
    rw [sieve_cons]
    cases hd : d.under (s.pass d).1 with
    | none => simp [pass, Session.passAll, hd, ih]
    | some d' => simp [pass, Session.passAll, hd, ih, sieve_cons]

theorem sieve_single (s : Session) (ds : List Diagnostic) :
    sieve [s] ds = ((s.passAll ds).1, [(s.passAll ds).2]) := by
  rw [sieve_first, sieve_empty]

theorem sieve_stages (chain : Chain) (ds : List Diagnostic) :
    chain.sieve ds = chain.stages ds := by
  induction chain generalizing ds with
  | nil => simp [sieve_empty, stages]
  | cons s rest ih => rw [sieve_first, ih]; rfl

theorem sieve_append (chain : Chain) (as bs : List Diagnostic) :
    chain.sieve (as ++ bs) =
      ((chain.sieve as).1 ++ ((chain.sieve as).2.sieve bs).1,
        ((chain.sieve as).2.sieve bs).2) := by
  induction as generalizing chain with
  | nil => simp
  | cons a as ih => simp [sieve_cons, ih]

/-- Diagnostic by diagnostic or session by session, a chain keeps the same list and ends in the same
state; and the list may be handed over in parts. -/
theorem sieve_eq_stages (chain : Chain) (ds : List Diagnostic) :
    chain.sieve ds = chain.stages ds ∧
    ∀ as bs, chain.sieve (as ++ bs) =
      ((chain.sieve as).1 ++ ((chain.sieve as).2.sieve bs).1,
        ((chain.sieve as).2.sieve bs).2) :=
  ⟨sieve_stages chain ds, sieve_append chain⟩

end Chain
end Triage
