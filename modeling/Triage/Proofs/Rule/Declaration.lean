import Triage.Proofs.Rule.Attribute
import Triage.Proofs.Rule.Name

set_option autoImplicit false

/-!
The rules that attributes declare, told without the order in which the attributes are gone through.
The rules of a file follow from its attributes as a whole: where several names are about one code,
the greatest of them counts (`FileRules.Declared`). The rules of a project are those of its files,
or there are none for the first attribute that offends (`ProjectRules.ofAttributes_declares`).
-/

namespace Triage

namespace FileRules

structure Declared (stem : Text) (attrs : SortedMap Text Text) (r : FileRules) : Prop where
  default : match attrs.get? stem with
    | some value => DefaultRule.ofValue? value = some r.default
    | none => r.default = .all
  ruled : ∀ code, r.codes.contains code = true ↔
    ∃ name, attrs.contains name = true ∧ NamesNumber stem name code.toNat
  codes : ∀ code c, r.codes.get? code = some c ↔
    ∃ name value, attrs.get? name = some value ∧ NamesNumber stem name code.toNat ∧
      CodeRule.ofValue? value = some c ∧
      ∀ name', attrs.contains name' = true → NamesNumber stem name' code.toNat → ¬ name < name'

section Run
variable {stem : Text} {l : List (Text × Text)} {a : Text × Text} {r r' : FileRules}

def declareAll (stem : Text) (l : List (Text × Text)) : Except RuleError FileRules :=
  l.foldlM (fun r a => r.declare stem a.1 a.2) passing

theorem declareAll_concat (h : declareAll stem (l ++ [a]) = .ok r') :
    ∃ r, declareAll stem l = .ok r ∧ r.declare stem a.1 a.2 = .ok r' := by
  simp only [declareAll, List.foldlM_append, List.foldlM_cons, List.foldlM_nil, bind_pure] at h ⊢
  cases hl : l.foldlM (fun r a => declare stem r a.1 a.2) passing with
  | error e =>
    rw [hl] at h
    cases h
  | ok r =>
    rw [hl] at h
    exact ⟨r, rfl, h⟩

theorem default_of_declareAll (h : declareAll stem l = .ok r) :
    (∃ value, (stem, value) ∈ l ∧ DefaultRule.ofValue? value = some r.default) ∨
      (∀ value, (stem, value) ∉ l) ∧ r.default = .all := by
  induction l using List.reverseRecOn generalizing r with
  | nil =>
    cases h
    exact .inr ⟨by simp, rfl⟩
  | append_singleton l a ih =>
    obtain ⟨name, value⟩ := a
    obtain ⟨r₁, h₁, hd⟩ := declareAll_concat h
    rcases declare_ok_cases hd with ⟨hr, rfl⟩ | ⟨rfl, d, hv, rfl⟩ | ⟨code, c, hn, -, rfl⟩
    · have hne : stem ≠ name := fun e => hr (.inl e.symm)
      simpa [hne] using ih h₁
    · exact .inl ⟨value, by simp, hv⟩
    · simpa [hn.ne_stem.symm] using ih h₁

theorem contains_of_declareAll (h : declareAll stem l = .ok r) (code : Code) :
    r.codes.contains code = true ↔ ∃ a ∈ l, NamesNumber stem a.1 code.toNat := by
  induction l using List.reverseRecOn generalizing r with
  | nil =>
    cases h
    simp [passing, SortedMap.contains]
  | append_singleton l a ih =>
    obtain ⟨r₁, h₁, hd⟩ := declareAll_concat h
    have ih := ih h₁
    rcases declare_ok_cases hd with ⟨hr, rfl⟩ | ⟨hs, d, -, rfl⟩ | ⟨code', c, hn, -, rfl⟩
    · have hn : ¬ NamesNumber stem a.1 code.toNat := fun hn => hr (.inr ⟨_, hn⟩)
      simp [ih, hn]
    · have hn : ¬ NamesNumber stem a.1 code.toNat := fun hn => hn.ne_stem hs
      simp [ih, hn]
    · by_cases hc : code = code'
      · subst hc
        have hc : (r₁.codes.insert code c).contains code = true := by simp [SortedMap.contains]
        exact ⟨fun _ => ⟨a, by simp, hn⟩, fun _ => hc⟩
      · have hn : ¬ NamesNumber stem a.1 code.toNat := fun hn' =>
          hc (UInt32.toNat_inj.1 (hn'.unique hn))
        have hi : (r₁.codes.insert code' c).contains code = r₁.codes.contains code := by
          simp [SortedMap.contains, hc]
        rw [hi, ih]
        simp [hn]

/-- The names come in increasing order, so of those about one code the greatest comes last. -/
theorem codes_of_declareAll (hl : l.Pairwise fun a b => a.1 < b.1) (h : declareAll stem l = .ok r)
    (code : Code) (c : CodeRule) :
    r.codes.get? code = some c ↔
      ∃ a ∈ l, NamesNumber stem a.1 code.toNat ∧ CodeRule.ofValue? a.2 = some c ∧
        ∀ b ∈ l, NamesNumber stem b.1 code.toNat → ¬ a.1 < b.1 := by
  induction l using List.reverseRecOn generalizing r with
  | nil =>
    cases h
    simp [passing]
  | append_singleton l a ih =>
    obtain ⟨r₁, h₁, hd⟩ := declareAll_concat h
    obtain ⟨hl, -, hlt⟩ := List.pairwise_append.1 hl
    have hlt : ∀ b ∈ l, b.1 < a.1 := fun b hb => hlt b hb a (by simp)
    have ih := ih hl h₁
    have hother (hn : ¬ NamesNumber stem a.1 code.toNat)
        (hr : r.codes.get? code = r₁.codes.get? code) : r.codes.get? code = some c ↔
        ∃ b ∈ l ++ [a], NamesNumber stem b.1 code.toNat ∧ CodeRule.ofValue? b.2 = some c ∧
          ∀ b' ∈ l ++ [a], NamesNumber stem b'.1 code.toNat → ¬ b.1 < b'.1 := by
      rw [hr, ih]
      simp [hn, or_imp, forall_and]
    rcases declare_ok_cases hd with ⟨hr, rfl⟩ | ⟨hs, d, -, rfl⟩ | ⟨code', c', hn, hv, rfl⟩
    · exact hother (fun hn => hr (.inr ⟨_, hn⟩)) rfl
    · exact hother (fun hn => hn.ne_stem hs) rfl
    · by_cases hc : code = code'
      · subst hc
        have hget : (r₁.codes.insert code c').get? code = some c' := by simp
        rw [hget]
        constructor
        · rintro ⟨⟩
          refine ⟨a, by simp, hn, hv, fun b hb _ hab => ?_⟩
          rcases List.mem_append.1 hb with hb | hb
          · exact KeyOrder.irrefl _ (KeyOrder.trans hab (hlt b hb))
          · obtain rfl := List.mem_singleton.1 hb
            exact KeyOrder.irrefl _ hab
        · rintro ⟨b, hb, -, hvb, hmax⟩
          rcases List.mem_append.1 hb with hb | hb
          · exact absurd (hlt b hb) (hmax a (by simp) hn)
          · obtain rfl := List.mem_singleton.1 hb
            rw [← hv, hvb]
      · exact hother (fun hn' => hc (UInt32.toNat_inj.1 (hn'.unique hn))) (by simp [hc])

end Run

variable {stem : Text} {attrs : SortedMap Text Text} {r r' : FileRules} {e : RuleError}

theorem ofAttributes_error_iff : ofAttributes stem attrs = .error e ↔
    ∃ name value, attrs.get? name = some value ∧ Offends stem name value e ∧
      ∀ name' value' e', attrs.get? name' = some value' → Offends stem name' value' e' →
        ¬ name' < name := by
  have h := SortedMap.foldlM_error_iff (f := fun (r : FileRules) a => r.declare stem a.1 a.2)
    (fun _ _ _ => declare_error_iff) attrs.sorted passing e
  simp only [SortedMap.get?_eq_some_iff]
  rw [ofAttributes, h]
  constructor
  · rintro ⟨a, ha, he, hleast⟩
    exact ⟨a.1, a.2, ha, he, fun name' value' e' h h' => hleast (name', value') h e' h'⟩
  · rintro ⟨name, value, ha, he, hleast⟩
    exact ⟨(name, value), ha, he, fun b hb e' h' => hleast b.1 b.2 e' hb h'⟩

theorem ofAttributes_ok_iff : (∃ r, ofAttributes stem attrs = .ok r) ↔
    ∀ name value e, attrs.get? name = some value → ¬ Offends stem name value e := by
  have h := SortedMap.foldlM_ok_iff (f := fun (r : FileRules) a => r.declare stem a.1 a.2)
    (fun _ _ _ => declare_error_iff) attrs.entries passing
  simp only [SortedMap.get?_eq_some_iff]
  exact h.trans ⟨fun h name value e hm => h (name, value) hm e, fun h a ha e => h a.1 a.2 e ha⟩

theorem declared_ofAttributes (h : ofAttributes stem attrs = .ok r) : r.Declared stem attrs where
  default := by
    have hd := default_of_declareAll (l := attrs.entries) h
    simp only [← SortedMap.get?_eq_some_iff] at hd
    cases hs : attrs.get? stem with
    | none => simpa [hs] using hd
    | some value => simpa [hs] using hd
  ruled code := by
    rw [contains_of_declareAll h]
    simp only [SortedMap.contains, Option.isSome_iff_exists, SortedMap.get?_eq_some_iff,
      Prod.exists, exists_and_right]
  codes code c := by
    have hc := codes_of_declareAll attrs.sorted h code c
    rw [hc]
    simp only [SortedMap.contains, Option.isSome_iff_exists, SortedMap.get?_eq_some_iff,
      Prod.exists, Prod.forall, forall_exists_index]

theorem Declared.unique (h : r.Declared stem attrs) (h' : r'.Declared stem attrs) : r = r' := by
  have hd : r.default = r'.default := by
    have hr := h.default
    have hr' := h'.default
    cases hs : attrs.get? stem with
    | none =>
      rw [hs] at hr hr'
      exact hr.trans hr'.symm
    | some value =>
      rw [hs] at hr hr'
      exact Option.some.inj (hr.symm.trans hr')
  have hc : r.codes = r'.codes := SortedMap.ext_get? fun code => Option.ext fun c => by
    rw [h.codes, h'.codes]
  cases r
  cases r'
  simp_all

theorem Declared.of_agree {attrs' : SortedMap Text Text} (hd : r.Declared stem attrs)
    (h : ∀ name, Relevant stem name → attrs.get? name = attrs'.get? name) :
    r.Declared stem attrs' := by
  have hn {name : Text} {n : Nat} (hn : NamesNumber stem name n) :
      attrs.get? name = attrs'.get? name := h name (.inr ⟨n, hn⟩)
  have hc {name : Text} {n : Nat} (hc : NamesNumber stem name n) :
      attrs.contains name = attrs'.contains name := by rw [SortedMap.contains, hn hc]; rfl
  refine ⟨h stem (.inl rfl) ▸ hd.default, fun code => ?_, fun code c => ?_⟩
  · rw [hd.ruled]
    exact exists_congr fun name => and_congr_left fun hname => by rw [hc hname]
  · rw [hd.codes]
    constructor <;>
    · rintro ⟨name, value, hv, hname, hw, hmax⟩
      exact ⟨name, value, hn hname ▸ hv, hname, hw,
        fun name' hm hname' => hmax name' (hc hname' ▸ hm) hname'⟩

theorem Declared.shortest (h : r.Declared stem attrs) {code : Code} (hc : code ≠ 0) {value : Text}
    {c : CodeRule} (hn : attrs.get? (stem ++ Text.ofNat code.toNat) = some value)
    (hv : CodeRule.ofValue? value = some c) : r.codes.get? code = some c := by
  have hz : code.toNat ≠ 0 := fun e => hc (UInt32.toNat_inj.1 e)
  refine (h.codes code c).2 ⟨_, value, hn, namesNumber_ofNat stem _, hv, fun name' _ hn' hlt => ?_⟩
  by_cases he : name' = stem ++ Text.ofNat code.toNat
  · rw [he] at hlt
    exact KeyOrder.irrefl _ hlt
  · exact KeyOrder.irrefl _ (KeyOrder.trans hlt (hn'.lt_shortest hz he))

end FileRules

namespace Attributes

/-- An attribute that offends and stands before all others that do, in the order of paths and, for
one path, of names. -/
structure FirstOffence (stem : Text) (a : Attributes) (path name value : Text)
    (e : RuleError) : Prop where
  given : a.value? path name = some value
  offends : Offends stem name value e
  first : ∀ path' name' value' e', a.value? path' name' = some value' →
    Offends stem name' value' e' → path < path' ∨ path = path' ∧ (name < name' ∨ name = name')

/-- The same files, and the same values under every name that is about rules. -/
structure AgreeOn (stem : Text) (a b : Attributes) : Prop where
  paths : ∀ path, a.contains path = b.contains path
  values : ∀ path name, Relevant stem name → a.value? path name = b.value? path name

theorem AgreeOn.symm {stem : Text} {a b : Attributes} (h : a.AgreeOn stem b) : b.AgreeOn stem a :=
  ⟨fun path => (h.paths path).symm, fun path name hr => (h.values path name hr).symm⟩

theorem AgreeOn.firstOffence {stem path name value : Text} {a b : Attributes} {e : RuleError}
    (h : a.AgreeOn stem b) (ho : a.FirstOffence stem path name value e) :
    b.FirstOffence stem path name value e where
  given := by rw [← h.values path name ho.offends.relevant, ho.given]
  offends := ho.offends
  first path' name' value' e' hv ho' :=
    ho.first path' name' value' e' (by rw [h.values path' name' ho'.relevant, hv]) ho'

/-- An attribute about no rule of the stem, put in for a file that has attributes. -/
theorem agreeOn_put {stem path name : Text} {a : Attributes} (hn : ¬ Relevant stem name)
    (hp : a.contains path = true) (value : Text) : a.AgreeOn stem (a.put path name value) where
  paths p := by
    rw [contains_put]
    by_cases h : p = path
    · simp [h, hp]
    · simp [h]
  values p n hr := by
    have hne : ¬ (p = path ∧ n = name) := fun h => hn (h.2 ▸ hr)
    rw [value?_put, if_neg hne]

/-- The first offence is that of the first file with one, and within the file the first by name. -/
theorem firstOffence_iff {stem path name value : Text} {a : Attributes} {e : RuleError} :
    a.FirstOffence stem path name value e ↔
      a.value? path name = some value ∧ Offends stem name value e ∧
      (∀ name' value' e', a.value? path name' = some value' → Offends stem name' value' e' →
        ¬ name' < name) ∧
      ∀ path' name' value' e', a.value? path' name' = some value' →
        Offends stem name' value' e' → ¬ path' < path := by
  constructor
  · rintro ⟨hgiven, ho, hfirst⟩
    refine ⟨hgiven, ho, ?_, ?_⟩
    · intro name' value' e' h' ho' hlt
      rcases hfirst path name' value' e' h' ho' with h | ⟨-, h | rfl⟩
      · exact KeyOrder.irrefl _ h
      · exact KeyOrder.irrefl _ (KeyOrder.trans h hlt)
      · exact KeyOrder.irrefl _ hlt
    · intro path' name' value' e' h' ho' hlt
      rcases hfirst path' name' value' e' h' ho' with h | ⟨rfl, -⟩
      · exact KeyOrder.irrefl _ (KeyOrder.trans h hlt)
      · exact KeyOrder.irrefl _ hlt
  · rintro ⟨hgiven, ho, hname, hpath⟩
    refine ⟨hgiven, ho, fun path' name' value' e' h' ho' => ?_⟩
    by_cases hp : path = path'
    · subst hp
      by_cases hn : name = name'
      · exact .inr ⟨rfl, .inr hn⟩
      · exact .inr ⟨rfl, .inl (KeyOrder.connected (Ne.symm hn) (hname name' value' e' h' ho'))⟩
    · exact .inl (KeyOrder.connected (Ne.symm hp) (hpath path' name' value' e' h' ho'))

end Attributes

namespace ProjectRules

/-- Every file with attributes has the rules that they declare, and no other file has rules. -/
structure Declared (stem : Text) (a : Attributes) (rules : ProjectRules) : Prop where
  paths : ∀ path, rules.contains path = a.contains path
  file : ∀ path attrs r, a.get? path = some attrs → rules.get? path = some r → r.Declared stem attrs

variable {stem : Text} {a b : Attributes} {rules rules' : ProjectRules} {e : RuleError}

theorem Declared.unique (h : rules.Declared stem a) (h' : rules'.Declared stem a) :
    rules = rules' := by
  apply SortedMap.ext_contains
  · intro path
    rw [h.paths, h'.paths]
  · intro path r r' hr hr'
    have hc : a.contains path = true := by rw [← h.paths, SortedMap.contains, hr]; rfl
    obtain ⟨attrs, ha⟩ := Option.isSome_iff_exists.1 hc
    exact (h.file path attrs r ha hr).unique (h'.file path attrs r' ha hr')

theorem declared_ofAttributes (h : ofAttributes stem a = .ok rules) : rules.Declared stem a where
  paths path := by
    have hok := ofAttributes_ok_iff.1 ⟨rules, h⟩ path
    rw [SortedMap.contains, get?_of_ofAttributes h, SortedMap.contains]
    cases ha : a.get? path with
    | none => rfl
    | some attrs =>
      obtain ⟨r, hr⟩ := hok attrs ha
      simp [hr, Except.toOption]
  file path attrs r ha hr := by
    rw [get?_of_ofAttributes h, ha, Option.bind_some] at hr
    cases hf : FileRules.ofAttributes stem attrs with
    | error e => simp [hf, Except.toOption] at hr
    | ok r' =>
      obtain rfl : r' = r := by simpa [hf, Except.toOption] using hr
      exact FileRules.declared_ofAttributes hf

/-- Rules are made exactly where no attribute offends, and then they are those declared. -/
theorem ofAttributes_ok_iff_declared : ofAttributes stem a = .ok rules ↔
    (∀ path name value e, a.value? path name = some value → ¬ Offends stem name value e) ∧
      rules.Declared stem a := by
  have hok : (∃ rules, ofAttributes stem a = .ok rules) ↔
      ∀ path name value e, a.value? path name = some value → ¬ Offends stem name value e := by
    simp only [ofAttributes_ok_iff, FileRules.ofAttributes_ok_iff, Attributes.value?_eq_some_iff]
    exact ⟨fun h path name value e ⟨attrs, ha, hn⟩ => h path attrs ha name value e hn,
      fun h path attrs ha name value e hn => h path name value e ⟨attrs, ha, hn⟩⟩
  constructor
  · intro h
    exact ⟨hok.1 ⟨rules, h⟩, declared_ofAttributes h⟩
  · rintro ⟨hgood, hd⟩
    obtain ⟨rules', h⟩ := hok.2 hgood
    rw [h, (declared_ofAttributes h).unique hd]

theorem ofAttributes_error_iff : ofAttributes stem a = .error e ↔
    ∃ path name value, a.FirstOffence stem path name value e := by
  have hstep : ∀ (rules : ProjectRules) (p : Text × SortedMap Text Text) (e : RuleError),
      (do return rules.insert p.1 (← FileRules.ofAttributes stem p.2) :
        Except RuleError ProjectRules) = .error e ↔
      FileRules.ofAttributes stem p.2 = .error e := by
    intro rules p e
    cases FileRules.ofAttributes stem p.2 <;> simp [bind, Except.bind, pure, Except.pure]
  rw [ofAttributes, SortedMap.foldlM_error_iff hstep a.sorted]
  simp only [Attributes.firstOffence_iff, Attributes.value?_eq_some_iff]
  constructor
  · rintro ⟨⟨path, attrs⟩, hp, he, hleast⟩
    obtain ⟨name, value, hn, ho, hfirst⟩ := FileRules.ofAttributes_error_iff.1 he
    have ha := SortedMap.get?_eq_some_iff.2 hp
    refine ⟨path, name, value, ⟨attrs, ha, hn⟩, ho, ?_, ?_⟩
    · rintro name' value' e' ⟨attrs', ha', hn'⟩ ho'
      obtain rfl : attrs = attrs' := by simpa [ha] using ha'
      exact hfirst name' value' e' hn' ho'
    · rintro path' name' value' e' ⟨attrs', ha', hn'⟩ ho'
      cases hf : FileRules.ofAttributes stem attrs' with
      | ok r => exact absurd ho' (FileRules.ofAttributes_ok_iff.1 ⟨r, hf⟩ name' value' e' hn')
      | error e'' => exact hleast (path', attrs') (SortedMap.get?_eq_some_iff.1 ha') e'' hf
  · rintro ⟨path, name, value, ⟨attrs, ha, hn⟩, ho, hname, hpath⟩
    refine ⟨(path, attrs), SortedMap.get?_eq_some_iff.1 ha, ?_, ?_⟩
    · exact FileRules.ofAttributes_error_iff.2 ⟨name, value, hn, ho, fun name' value' e' hn' =>
        hname name' value' e' ⟨attrs, ha, hn'⟩⟩
    · intro p hp e' he'
      obtain ⟨name', value', hn', ho', -⟩ := FileRules.ofAttributes_error_iff.1 he'
      exact hpath p.1 name' value' e' ⟨p.2, SortedMap.get?_eq_some_iff.2 hp, hn'⟩ ho'

theorem Declared.of_agreeOn (hd : rules.Declared stem a) (h : a.AgreeOn stem b) :
    rules.Declared stem b where
  paths path := (hd.paths path).trans (h.paths path)
  file path attrs r hb hr := by
    have hc : a.contains path = true := by rw [h.paths, SortedMap.contains, hb]; rfl
    obtain ⟨attrs', ha⟩ := Option.isSome_iff_exists.1 hc
    refine (hd.file path attrs' r ha hr).of_agree fun name hname => ?_
    have hv := h.values path name hname
    rwa [Attributes.value?, Attributes.value?, ha, hb] at hv

theorem ofAttributes_of_agreeOn (h : a.AgreeOn stem b) :
    ofAttributes stem a = ofAttributes stem b := by
  cases hb : ofAttributes stem b with
  | ok rules =>
    obtain ⟨hgood, hd⟩ := ofAttributes_ok_iff_declared.1 hb
    refine ofAttributes_ok_iff_declared.2 ⟨fun path name value e hv ho => ?_, hd.of_agreeOn h.symm⟩
    rw [h.values path name ho.relevant] at hv
    exact hgood path name value e hv ho
  | error e =>
    obtain ⟨path, name, value, ho⟩ := ofAttributes_error_iff.1 hb
    exact ofAttributes_error_iff.2 ⟨path, name, value, h.symm.firstOffence ho⟩

/-- Making rules from attributes fails with the first attribute that offends, if one does; otherwise
it comes to the rules that the attributes declare. Names that are about no rule are without effect.
-/
theorem ofAttributes_declares (stem : Text) (a : Attributes) :
    (∀ e, ofAttributes stem a = .error e ↔
      ∃ path name value, a.FirstOffence stem path name value e) ∧
    ((∃ e, ofAttributes stem a = .error e) ↔
      ∃ path name value e, a.value? path name = some value ∧ Offends stem name value e) ∧
    (∀ rules, ofAttributes stem a = .ok rules ↔
      (∀ path name value e, a.value? path name = some value → ¬ Offends stem name value e) ∧
        rules.Declared stem a) ∧
    (∀ rules path attrs r, ofAttributes stem a = .ok rules → a.get? path = some attrs →
      rules.get? path = some r → ∀ code : Code, code ≠ 0 → ∀ value,
        attrs.get? (stem ++ Text.ofNat code.toNat) = some value →
        r.codes.get? code = CodeRule.ofValue? value) ∧
    ∀ b, a.AgreeOn stem b → ofAttributes stem b = ofAttributes stem a := by
  refine ⟨fun e => ofAttributes_error_iff, ?_, fun rules => ofAttributes_ok_iff_declared, ?_,
    fun b h => (ofAttributes_of_agreeOn h).symm⟩
  · constructor
    · rintro ⟨e, he⟩
      obtain ⟨path, name, value, ho⟩ := ofAttributes_error_iff.1 he
      exact ⟨path, name, value, e, ho.given, ho.offends⟩
    · rintro ⟨path, name, value, e, hv, ho⟩
      cases h : ofAttributes stem a with
      | error e => exact ⟨e, rfl⟩
      | ok rules => exact absurd ho ((ofAttributes_ok_iff_declared.1 h).1 path name value e hv)
  · intro rules path attrs r h ha hr code hc value hv
    obtain ⟨hgood, hd⟩ := ofAttributes_ok_iff_declared.1 h
    cases hw : CodeRule.ofValue? value with
    | some c => exact (hd.file path attrs r ha hr).shortest hc hv hw
    | none =>
      have ho := Offends.code (namesNumber_ofNat stem code.toNat) code.toNat_lt_size
        (CodeRule.ofValue?_eq_none.1 hw)
      exact absurd ho (hgood path _ value _ (Attributes.value?_eq_some_iff.2 ⟨attrs, ha, hv⟩))

/-- A default and a code under two spellings, and then also a name that only begins like one about
rules. -/
theorem ofAttributes_declares_padded :
    let file := "/r/a.ts".toList
    let a : Attributes := .ofList [(file, .ofList [("ts".toList, "onlyerrors".toList),
      ("ts007".toList, "ignore".toList), ("ts7".toList, "error".toList)])]
    let r : FileRules := ⟨.onlyErrors, .ofList [(7, .asError)]⟩
    ofAttributes "ts".toList a = .ok (.ofList [(file, r)]) ∧
      r.codes.get? 7 = CodeRule.ofValue? "error".toList ∧
      ofAttributes "ts".toList (a.put file "ts7x".toList "sometimes".toList) =
        .ok (.ofList [(file, r)]) := by
  intro file a r
  obtain ⟨-, -, -, hshortest, hagree⟩ := ofAttributes_declares "ts".toList a
  have ha : ofAttributes "ts".toList a = .ok (.ofList [(file, r)]) := by decide
  refine ⟨ha, ?_, ?_⟩
  · exact hshortest _ file _ r ha rfl (by decide) 7 (by decide) _ (by decide)
  · rw [hagree _ (Attributes.agreeOn_put (by decide) (by decide) _), ha]

end ProjectRules
end Triage
