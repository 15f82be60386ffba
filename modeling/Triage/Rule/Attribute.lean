import Triage.Rule
import Triage.Text.Decimal

set_option autoImplicit false

/-!
Rules declared as attributes of files. An attribute named by the stem alone gives the default rule
of its file; one named by the stem and a run of ASCII digits gives the rule of that code. All other
attributes belong to someone else.
-/

namespace Triage

abbrev Attributes := SortedMap Text (SortedMap Text Text)

namespace Attributes

def value? (a : Attributes) (path name : Text) : Option Text := (a.get? path).bind (·.get? name)

def put (a : Attributes) (path name value : Text) : Attributes :=
  a.alter path fun known => (known.getD .empty).insert name value

theorem value?_eq_some_iff {a : Attributes} {path name value : Text} :
    a.value? path name = some value ↔
      ∃ attrs, a.get? path = some attrs ∧ attrs.get? name = some value := by
  simp [value?, Option.bind_eq_some_iff]

theorem value?_put (a : Attributes) (path name value p n : Text) :
    (a.put path name value).value? p n =
      if p = path ∧ n = name then some value else a.value? p n := by
  by_cases hp : p = path
  · subst hp
    cases h : a.get? p <;> simp [value?, put, h]
  · simp [value?, put, hp]

theorem contains_put (a : Attributes) (path name value p : Text) :
    (a.put path name value).contains p = (p = path || a.contains p) := by
  by_cases hp : p = path <;> simp [SortedMap.contains, put, hp]

/-- Attributes with the same files and the same values are the same. -/
theorem ext_value? {a b : Attributes} (hc : ∀ path, a.contains path = b.contains path)
    (hv : ∀ path name, a.value? path name = b.value? path name) : a = b := by
  refine SortedMap.ext_contains hc fun path attrs attrs' ha hb => SortedMap.ext_get? fun name => ?_
  simpa [value?, ha, hb] using hv path name

end Attributes

inductive RuleError where
  | unrecognizedValue (name value : Text)
  | codeOutOfRange (name : Text)
  deriving DecidableEq, Repr

namespace RuleError

def message : RuleError → Text
  | .unrecognizedValue name value =>
    "Unrecognized attribute value: ".toList ++ name ++ '=' :: value
  | .codeOutOfRange name =>
    "Invalid diagnostic code in attribute '".toList ++ name ++ ['\'']

end RuleError

def unsetWords : List Text := ["unset".toList, "ignore".toList, "none".toList]

def DefaultRule.ofValue? (v : Text) : Option DefaultRule :=
  if v ∈ unsetWords then some .ignore
  else if v = "onlyerrors".toList then some .onlyErrors
  else if v = "aswarnings".toList then some .asWarnings
  else if v = "all".toList ∨ v = "set".toList then some .all
  else none

def CodeRule.ofValue? (v : Text) : Option CodeRule :=
  if v ∈ unsetWords then some .ignore
  else if v = "error".toList ∨ v = "err".toList then some .asError
  else if v = "warn".toList ∨ v = "warning".toList then some .asWarning
  else if v = "set".toList then some .allow
  else none

inductive Subject where
  | default
  | code (digits : Text)
  deriving DecidableEq, Repr

def Subject.ofName? (stem name : Text) : Option Subject :=
  match Text.after? stem name with
  | none => none
  | some [] => some .default
  | some digits => if digits.all Text.isDigit then some (.code digits) else none

def FileRules.declare (stem : Text) (r : FileRules) (name value : Text) :
    Except RuleError FileRules :=
  match Subject.ofName? stem name with
  | none => .ok r
  | some .default =>
    match DefaultRule.ofValue? value with
    | some d => .ok { r with default := d }
    | none => .error (.unrecognizedValue name value)
  | some (.code digits) =>
    match Text.toWord? digits with
    | none => .error (.codeOutOfRange name)
    | some code =>
      match CodeRule.ofValue? value with
      | some c => .ok { r with codes := r.codes.insert code c }
      | none => .error (.unrecognizedValue name value)

/-- The rules of one file from its attributes, taken in the order of their names. -/
def FileRules.ofAttributes (stem : Text) (attrs : SortedMap Text Text) :
    Except RuleError FileRules :=
  attrs.entries.foldlM (fun r a => r.declare stem a.1 a.2) passing

/-- The rules of every file that has attributes, relevant ones or not; the first error in the order
of paths and names is the answer if there is one. -/
def ProjectRules.ofAttributes (stem : Text) (attributes : Attributes) :
    Except RuleError ProjectRules :=
  attributes.entries.foldlM
    (fun (rules : ProjectRules) a => do return rules.insert a.1 (← FileRules.ofAttributes stem a.2))
    .empty

end Triage
