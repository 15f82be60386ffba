import Triage.Proofs.Text.Words
import Triage.Rule.Attribute

set_option autoImplicit false

/-!
What one attribute says. A name is about its file or about a code by its spelling (`Relevant`,
`NamesNumber`), an attribute is wrong by its name and value alone (`Offends`), and one that is not
wrong sets the default of its file, sets the rule of a code, or does nothing (`declare_ok_cases`).
-/

namespace Triage

def DefaultRule.words : List Text :=
  unsetWords ++ ["onlyerrors".toList, "aswarnings".toList, "all".toList, "set".toList]

theorem DefaultRule.ofValue?_eq_none {v : Text} : ofValue? v = none ↔ v ∉ words := by
  simp only [ofValue?, words, List.mem_append, List.mem_cons, List.not_mem_nil, or_false]
  repeat' split
  all_goals grind

def CodeRule.words : List Text :=
  unsetWords ++ ["error".toList, "err".toList, "warn".toList, "warning".toList, "set".toList]

theorem CodeRule.ofValue?_eq_none {v : Text} : ofValue? v = none ↔ v ∉ words := by
  simp only [ofValue?, words, List.mem_append, List.mem_cons, List.not_mem_nil, or_false]
  repeat' split
  all_goals grind

/-- The name is the stem and digits that write the number, with or without leading zeros. -/
def NamesNumber (stem name : Text) (n : Nat) : Prop :=
  ∃ digits, Numeral digits ∧ name = stem ++ digits ∧ Nat.ofDigitChars 10 digits 0 = n

def Relevant (stem name : Text) : Prop := name = stem ∨ ∃ n, NamesNumber stem name n

/-- What is wrong with an attribute. A number out of range is wrong whatever the value is. -/
inductive Offends (stem name value : Text) : RuleError → Prop
  | default (hn : name = stem) (hv : value ∉ DefaultRule.words) :
    Offends stem name value (.unrecognizedValue name value)
  | range {n : Nat} (hn : NamesNumber stem name n) (h : UInt32.size ≤ n) :
    Offends stem name value (.codeOutOfRange name)
  | code {n : Nat} (hn : NamesNumber stem name n) (h : n < UInt32.size)
      (hv : value ∉ CodeRule.words) :
    Offends stem name value (.unrecognizedValue name value)

section Names
variable {stem name digits value : Text} {n m : Nat} {e : RuleError}

theorem NamesNumber.ne_stem (h : NamesNumber stem name n) : name ≠ stem := by
  obtain ⟨digits, hd, rfl, -⟩ := h
  simpa using hd.1

theorem NamesNumber.unique (h : NamesNumber stem name n) (h' : NamesNumber stem name m) :
    n = m := by
  obtain ⟨digits, -, rfl, rfl⟩ := h
  obtain ⟨digits', -, he, rfl⟩ := h'
  rw [List.append_cancel_left he]

/-- Of the names about one code other than zero, the one without leading zeros is the greatest. -/
theorem NamesNumber.lt_shortest (h : NamesNumber stem name n) (hn : n ≠ 0)
    (hne : name ≠ stem ++ Text.ofNat n) : name < stem ++ Text.ofNat n := by
  obtain ⟨digits, ⟨hd, hall⟩, rfl, rfl⟩ := h
  apply List.append_left_lt
  have hz : digits.head? = some '0' := Decidable.byContradiction fun hz =>
    hne (congrArg (stem ++ ·) (Text.eq_ofNat hd hall hz))
  obtain ⟨c, t, hc, hdigit⟩ := Text.exists_ofNat_cons (Nat.ofDigitChars 10 digits 0)
  have hc0 : c ≠ '0' := fun e => Text.head?_ofNat hn (by rw [hc, e]; rfl)
  cases digits with
  | nil => exact absurd rfl hd
  | cons d digits =>
    obtain rfl : d = '0' := by simpa using hz
    have h0 : ('0' : Char) ≤ c := by
      simp only [Text.isDigit, Bool.and_eq_true, decide_eq_true_eq] at hdigit
      exact hdigit.1
    rw [hc, List.cons_lt_cons_iff]
    exact .inl (Std.lt_of_le_of_ne h0 hc0.symm)

theorem namesNumber_ofNat (stem : Text) (n : Nat) :
    NamesNumber stem (stem ++ Text.ofNat n) n :=
  ⟨_, ⟨Text.ofNat_ne_nil n, fun _ => Text.isDigit_of_mem_ofNat⟩, rfl,
    Nat.ofDigitChars_ten_toDigits⟩

theorem Offends.relevant (h : Offends stem name value e) : Relevant stem name := by
  cases h with
  | default hn _ => exact .inl hn
  | range hn _ => exact .inr ⟨_, hn⟩
  | code hn _ _ => exact .inr ⟨_, hn⟩

theorem offends_stem_iff : Offends stem stem value e ↔
    value ∉ DefaultRule.words ∧ e = .unrecognizedValue stem value := by
  constructor
  · rintro (⟨-, hv⟩ | ⟨hn, -⟩ | ⟨hn, -, -⟩)
    · exact ⟨hv, rfl⟩
    · exact absurd rfl hn.ne_stem
    · exact absurd rfl hn.ne_stem
  · rintro ⟨hv, rfl⟩
    exact .default rfl hv

theorem NamesNumber.offends_iff (h : NamesNumber stem name n) : Offends stem name value e ↔
    if n < UInt32.size then value ∉ CodeRule.words ∧ e = .unrecognizedValue name value
    else e = .codeOutOfRange name := by
  split
  · next hlt =>
    constructor
    · rintro (⟨hn, -⟩ | ⟨hn, hle⟩ | ⟨-, -, hv⟩)
      · exact absurd hn h.ne_stem
      · obtain rfl := h.unique hn
        omega
      · exact ⟨hv, rfl⟩
    · rintro ⟨hv, rfl⟩
      exact .code h hlt hv
  · next hle =>
    constructor
    · rintro (⟨hn, -⟩ | ⟨-, -⟩ | ⟨hn, hlt, -⟩)
      · exact absurd hn h.ne_stem
      · rfl
      · obtain rfl := h.unique hn
        exact absurd hlt hle
    · rintro rfl
      exact .range h (Nat.le_of_not_lt hle)

theorem Subject.ofName?_stem (stem : Text) : ofName? stem stem = some .default := by
  have h := Text.after?_append stem []
  rw [List.append_nil] at h
  rw [ofName?, h]

theorem Subject.ofName?_numeral (h : Numeral digits) :
    ofName? stem (stem ++ digits) = some (.code digits) := by
  rw [ofName?, Text.after?_append]
  obtain ⟨hne, hd⟩ := h
  cases digits with
  | nil => exact absurd rfl hne
  | cons c digits => exact if_pos (List.all_eq_true.2 hd)

theorem Subject.ofName?_of_not_relevant (h : ¬ Relevant stem name) : ofName? stem name = none := by
  unfold ofName?
  cases ha : Text.after? stem name with
  | none => rfl
  | some rest =>
    obtain rfl := Text.eq_append_of_after? ha
    cases rest with
    | nil => exact absurd (.inl (List.append_nil stem)) h
    | cons c rest =>
      refine if_neg fun hd => h (.inr ⟨_, c :: rest, ⟨by simp, ?_⟩, rfl, rfl⟩)
      exact List.all_eq_true.1 hd

theorem Subject.ofName?_eq_none_iff : ofName? stem name = none ↔ ¬ Relevant stem name := by
  refine ⟨fun h hr => ?_, ofName?_of_not_relevant⟩
  rcases hr with rfl | ⟨n, digits, hd, rfl, -⟩
  · simp [ofName?_stem] at h
  · simp [ofName?_numeral hd] at h

instance (stem name : Text) : Decidable (Relevant stem name) :=
  decidable_of_iff (Subject.ofName? stem name ≠ none)
    ((not_congr Subject.ofName?_eq_none_iff).trans Classical.not_not)

end Names

section Declare
variable {stem name value : Text} {n : Nat} {r r' : FileRules} {e : RuleError}

theorem declare_not_relevant (h : ¬ Relevant stem name) :
    r.declare stem name value = .ok r := by
  rw [FileRules.declare, Subject.ofName?_of_not_relevant h]

theorem declare_stem (r : FileRules) (stem value : Text) :
    r.declare stem stem value =
      match DefaultRule.ofValue? value with
      | some d => .ok { r with default := d }
      | none => .error (.unrecognizedValue stem value) := by
  cases h : DefaultRule.ofValue? value <;> simp only [FileRules.declare, Subject.ofName?_stem, h]

theorem declare_number (h : NamesNumber stem name n) :
    r.declare stem name value =
      if n < UInt32.size then
        match CodeRule.ofValue? value with
        | some c => .ok { r with codes := r.codes.insert (UInt32.ofNat n) c }
        | none => .error (.unrecognizedValue name value)
      else .error (.codeOutOfRange name) := by
  obtain ⟨digits, hd, rfl, rfl⟩ := h
  rw [FileRules.declare, Subject.ofName?_numeral hd]
  simp only [hd.toWord?]
  by_cases hn : Nat.ofDigitChars 10 digits 0 < UInt32.size
  · cases CodeRule.ofValue? value <;> simp only [if_pos hn]
  · simp only [if_neg hn]

theorem declare_error_iff : r.declare stem name value = .error e ↔ Offends stem name value e := by
  by_cases hr : Relevant stem name
  · rcases hr with rfl | ⟨n, hn⟩
    · rw [declare_stem, offends_stem_iff, ← DefaultRule.ofValue?_eq_none]
      cases DefaultRule.ofValue? value <;> simp [eq_comm]
    · rw [declare_number hn, hn.offends_iff, ← CodeRule.ofValue?_eq_none]
      split
      · cases CodeRule.ofValue? value <;> simp [eq_comm]
      · simp [eq_comm]
  · rw [declare_not_relevant hr]
    exact ⟨nofun, fun h => absurd h.relevant hr⟩

theorem declare_ok_cases (h : r.declare stem name value = .ok r') :
    (¬ Relevant stem name ∧ r' = r) ∨
    (name = stem ∧ ∃ d, DefaultRule.ofValue? value = some d ∧ r' = { r with default := d }) ∨
    ∃ (code : Code) (c : CodeRule), NamesNumber stem name code.toNat ∧
      CodeRule.ofValue? value = some c ∧ r' = { r with codes := r.codes.insert code c } := by
  by_cases hr : Relevant stem name
  · rcases hr with rfl | ⟨n, hn⟩
    · rw [declare_stem] at h
      cases hv : DefaultRule.ofValue? value with
      | none => simp [hv] at h
      | some d => exact .inr (.inl ⟨rfl, d, rfl, by simpa [hv, eq_comm] using h⟩)
    · rw [declare_number hn] at h
      by_cases hlt : n < UInt32.size
      · cases hv : CodeRule.ofValue? value with
        | none => simp [hv, hlt] at h
        | some c =>
          have hc : (UInt32.ofNat n).toNat = n := Nat.mod_eq_of_lt hlt
          exact .inr (.inr ⟨UInt32.ofNat n, c, hc.symm ▸ hn, rfl,
            by simpa [hv, hlt, eq_comm] using h⟩)
      · simp [hlt] at h
  · rw [declare_not_relevant hr] at h
    cases h
    exact .inl ⟨hr, rfl⟩

end Declare

end Triage
