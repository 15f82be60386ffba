import Triage.Proofs.Chain.Stages
import Triage.Proofs.Session.Totals

set_option autoImplicit false

namespace Triage

def slice (path : Text) (c : Code) (ds : List Diagnostic) : List Diagnostic :=
  ds.filter fun d => d.file = some path ∧ d.code = c

section Slices
variable {path : Text} {c : Code} {d : Diagnostic}

theorem mem_slice {ds : List Diagnostic} :
    d ∈ slice path c ds ↔ d ∈ ds ∧ d.file = some path ∧ d.code = c := by
  simp [slice]

theorem slice_cons (ds : List Diagnostic) : slice path c (d :: ds) =
    if d.file = some path ∧ d.code = c then d :: slice path c ds else slice path c ds := by
  simp [slice, List.filter_cons]

theorem slice_filterMap {f : Diagnostic → Option Diagnostic}
    (h : ∀ d d', f d = some d' → d.Recast d') (ds : List Diagnostic) :
    slice path c (ds.filterMap f) = (slice path c ds).filterMap f := by
  induction ds with
  | nil => rfl
  | cons d ds ih =>
    cases hf : f d with
    | none =>
      rw [List.filterMap_cons_none hf, ih, slice_cons]
      split
      · rw [List.filterMap_cons_none hf]
      · rfl
    | some d' =>
      have hr := h d d' hf
      rw [List.filterMap_cons_some hf, slice_cons, slice_cons, hr.file, hr.code, ih]
      split
      · rw [List.filterMap_cons_some hf]
      · rfl

theorem countP_slice (p : Diagnostic → Prop) [DecidablePred p] (ds : List Diagnostic) :
    ds.countP (fun d => d.file = some path ∧ d.code = c ∧ p d) =
      (slice path c ds).countP fun d => p d := by
  rw [slice, List.countP_filter]
  apply List.countP_congr
  intro d _
  simp only [Bool.and_eq_true, decide_eq_true_eq]
  rw [and_comm (a := p d), and_assoc]

theorem raisedCount_slice (rules : ProjectRules) (ds : List Diagnostic) :
    rules.raisedCount ds path c = (slice path c ds).countP fun d => rules.verdict d ≠ .ignore :=
  countP_slice _ ds

theorem ignoredCount_slice (rules : ProjectRules) (ds : List Diagnostic) :
    rules.ignoredCount ds path c = (slice path c ds).countP fun d => rules.verdict d = .ignore :=
  countP_slice _ ds

end Slices

namespace Session
variable (rules : ProjectRules) (path : Text) (c : Code) (ds : List Diagnostic)

theorem slice_passAll (s : Session) : slice path c (s.passAll ds).1 =
    (slice path c ds).filterMap fun d => d.under (s.rules.verdict d) := by
  rw [passAll_kept]
  exact slice_filterMap (fun d d' => Diagnostic.recast_of_under s.rules) ds

theorem raisedAt_passAll :
    ((start rules).passAll ds).2.report.raisedAt path c = rules.raisedCount ds path c :=
  (accounts_passAll rules ds).raisedAt path c

theorem ignoredAt_passAll :
    ((start rules).passAll ds).2.report.ignoredAt path c = rules.ignoredCount ds path c :=
  (accounts_passAll rules ds).ignoredAt path c

end Session
end Triage
