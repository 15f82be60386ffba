import Triage.Proofs.SortedMap
import Triage.Rule.Attribute

set_option autoImplicit false

namespace Triage

section Files
variable {stem : Text} {l : List (Text × SortedMap Text Text)} {rules made : ProjectRules}

def ProjectRules.takeAll (stem : Text) (rules : ProjectRules)
    (l : List (Text × SortedMap Text Text)) : Except RuleError ProjectRules :=
  l.foldlM (fun rules a => do return rules.insert a.1 (← FileRules.ofAttributes stem a.2)) rules

theorem takeAll_cons (a : Text × SortedMap Text Text) :
    ProjectRules.takeAll stem rules (a :: l) =
      match FileRules.ofAttributes stem a.2 with
      | .ok r => ProjectRules.takeAll stem (rules.insert a.1 r) l
      | .error e => .error e := by
  cases h : FileRules.ofAttributes stem a.2 with
  | ok r => simp only [ProjectRules.takeAll, List.foldlM_cons, h]; rfl
  | error e => simp only [ProjectRules.takeAll, List.foldlM_cons, h]; rfl

theorem takeAll_ok_iff : (∃ made, ProjectRules.takeAll stem rules l = .ok made) ↔
    ∀ a ∈ l, ∃ r, FileRules.ofAttributes stem a.2 = .ok r := by
  induction l generalizing rules with
  | nil => simpa using ⟨rules, rfl⟩
  | cons a l ih =>
    rw [takeAll_cons, List.forall_mem_cons]
    cases h : FileRules.ofAttributes stem a.2 with
    | ok r => simpa using ih
    | error e => simp

theorem get?_of_takeAll (hl : l.Pairwise fun a b => a.1 < b.1)
    (h : ProjectRules.takeAll stem rules l = .ok made) (path : Text) :
    made.get? path = match SortedMap.find path l with
      | some attrs => (FileRules.ofAttributes stem attrs).toOption
      | none => rules.get? path := by
  induction l generalizing rules with
  | nil => cases h; rfl
  | cons a l ih =>
    obtain ⟨p, attrs⟩ := a
    obtain ⟨hp, hl⟩ := List.pairwise_cons.1 hl
    rw [takeAll_cons] at h
    cases hr : FileRules.ofAttributes stem attrs with
    | error e => simp [hr] at h
    | ok r =>
      have ih := ih hl (by simpa [hr] using h)
      by_cases hpath : path = p
      · subst hpath
        have hn : SortedMap.find path l = none := SortedMap.find_eq_none hp
        simpa [SortedMap.find, hn, hr, Except.toOption] using ih
      · simpa [SortedMap.find, hpath] using ih

end Files

namespace ProjectRules
variable {stem : Text} {attributes : Attributes} {rules : ProjectRules}

theorem ofAttributes_takeAll : ofAttributes stem attributes =
    takeAll stem .empty attributes.entries := rfl

theorem ofAttributes_ok_iff : (∃ rules, ofAttributes stem attributes = .ok rules) ↔
    ∀ path attrs, attributes.get? path = some attrs →
      ∃ r, FileRules.ofAttributes stem attrs = .ok r := by
  simp only [ofAttributes_takeAll, takeAll_ok_iff, Prod.forall, SortedMap.get?_eq_some_iff]

theorem get?_of_ofAttributes (h : ofAttributes stem attributes = .ok rules) (path : Text) :
    rules.get? path =
      (attributes.get? path).bind fun attrs => (FileRules.ofAttributes stem attrs).toOption := by
  rw [ofAttributes_takeAll] at h
  rw [get?_of_takeAll attributes.sorted h path]
  change _ = (SortedMap.find path attributes.entries).bind _
  cases SortedMap.find path attributes.entries <;> rfl

end ProjectRules
end Triage
