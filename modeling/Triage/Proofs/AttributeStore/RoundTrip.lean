import Mathlib.Data.List.Induction
import Triage.Proofs.AttributeStore.Framing
import Triage.Proofs.SortedMap

set_option autoImplicit false

namespace Triage.Attributes

/-- The last record on an attribute of a file gives it the value. -/
def LastGives (rs : List AttributeRecord) (path name value : Text) : Prop :=
  ∃ before after, rs = before ++ ⟨path, name, value⟩ :: after ∧
    ∀ r ∈ after, ¬ (r.path = path ∧ r.name = name)

section Records
variable {rs : List AttributeRecord} {path name value : Text}

theorem LastGives.mem (h : LastGives rs path name value) : ⟨path, name, value⟩ ∈ rs := by
  obtain ⟨before, after, rfl, -⟩ := h
  simp

theorem lastGives_concat (rs : List AttributeRecord) (r : AttributeRecord)
    (path name value : Text) : LastGives (rs ++ [r]) path name value ↔
      if r.path = path ∧ r.name = name then r.value = value else LastGives rs path name value := by
  refine (exists_last_concat (p := fun s : AttributeRecord => s.path = path ∧ s.name = name)
    ⟨rfl, rfl⟩).trans ?_
  split
  · next hr =>
    obtain ⟨rfl, rfl⟩ := hr
    cases r
    simp
  · rfl

theorem exists_lastGives (h : ∃ r ∈ rs, r.path = path ∧ r.name = name) :
    ∃ value, LastGives rs path name value := by
  induction rs using List.reverseRecOn with
  | nil => simp at h
  | append_singleton rs r ih =>
    simp only [lastGives_concat]
    by_cases hr : r.path = path ∧ r.name = name
    · exact ⟨r.value, by rw [if_pos hr]⟩
    · simp only [if_neg hr]
      refine ih ?_
      obtain ⟨s, hs, hn⟩ := h
      rcases List.mem_append.1 hs with hs | hs
      · exact ⟨s, hs, hn⟩
      · rw [List.mem_singleton.1 hs] at hn
        exact absurd hn hr

theorem ofRecords_concat (rs : List AttributeRecord) (r : AttributeRecord) :
    ofRecords (rs ++ [r]) = (ofRecords rs).takeIn r := by
  simp [ofRecords]

theorem value?_takeIn (a : Attributes) (r : AttributeRecord) (path name : Text) :
    (a.takeIn r).value? path name =
      if r.path ≠ [] ∧ r.path = path ∧ r.name = name then some r.value
      else a.value? path name := by
  unfold takeIn
  by_cases hr : r.path = []
  · simp [hr]
  · simp [hr, value?_put, eq_comm]

theorem contains_takeIn (a : Attributes) (r : AttributeRecord) (path : Text) :
    (a.takeIn r).contains path = true ↔
      a.contains path = true ∨ r.path ≠ [] ∧ r.path = path := by
  unfold takeIn
  by_cases hr : r.path = []
  · simp [hr]
  · rw [if_neg hr, contains_put]
    simp [hr, or_comm, eq_comm (a := path)]

theorem value?_ofRecords : (ofRecords rs).value? path name = some value ↔
    path ≠ [] ∧ LastGives rs path name value := by
  induction rs using List.reverseRecOn with
  | nil => simp [ofRecords, value?, LastGives]
  | append_singleton rs r ih =>
    rw [ofRecords_concat, value?_takeIn, lastGives_concat]
    by_cases hr : r.path = path ∧ r.name = name
    · obtain ⟨rfl, rfl⟩ := hr
      by_cases hp : r.path = []
      · simp [hp] at ih ⊢
        exact ih
      · simp [hp]
    · simp [hr, ih]

theorem contains_ofRecords :
    (ofRecords rs).contains path = true ↔ path ≠ [] ∧ ∃ r ∈ rs, r.path = path := by
  induction rs using List.reverseRecOn with
  | nil => simp [ofRecords, SortedMap.contains]
  | append_singleton rs r ih =>
    rw [ofRecords_concat, contains_takeIn, ih]
    constructor
    · rintro (⟨hp, s, hs, rfl⟩ | ⟨hp, rfl⟩)
      · exact ⟨hp, s, by simp [hs], rfl⟩
      · exact ⟨hp, r, by simp, rfl⟩
    · rintro ⟨hp, s, hs, rfl⟩
      rcases List.mem_append.1 hs with hs | hs
      · exact .inl ⟨hp, s, hs, rfl⟩
      · rw [List.mem_singleton.1 hs] at hp ⊢
        exact .inr ⟨hp, rfl⟩

end Records

def records (a : Attributes) : List AttributeRecord :=
  a.entries.flatMap fun file => file.2.entries.map fun entry => ⟨file.1, entry.1, entry.2⟩

/-- No path is empty, and every file has an attribute. -/
def Recordable (a : Attributes) : Prop := ∀ file ∈ a.entries, file.1 ≠ [] ∧ file.2.isEmpty = false

instance (a : Attributes) : Decidable a.Recordable :=
  inferInstanceAs (Decidable (∀ file ∈ a.entries, file.1 ≠ [] ∧ file.2.isEmpty = false))

section Written
variable {a : Attributes} {rs : List AttributeRecord}

theorem mem_records {r : AttributeRecord} :
    r ∈ a.records ↔ a.value? r.path r.name = some r.value := by
  simp only [records, value?_eq_some_iff, List.mem_flatMap, List.mem_map,
    SortedMap.get?_eq_some_iff]
  constructor
  · rintro ⟨⟨path, attrs⟩, hfile, ⟨name, value⟩, hentry, rfl⟩
    exact ⟨attrs, hfile, hentry⟩
  · rintro ⟨attrs, hfile, hentry⟩
    exact ⟨_, hfile, _, hentry, rfl⟩

theorem contains_iff_mem_records (h : a.Recordable) (path : Text) :
    a.contains path = true ↔ path ≠ [] ∧ ∃ r ∈ a.records, r.path = path := by
  rw [SortedMap.contains, Option.isSome_iff_exists]
  constructor
  · rintro ⟨attrs, ha⟩
    obtain ⟨hp, hne⟩ := h (path, attrs) (SortedMap.get?_eq_some_iff.1 ha)
    obtain ⟨name, value, hn⟩ : ∃ name value, attrs.get? name = some value := by
      by_contra hnone
      rw [Bool.eq_false_iff, ne_eq, SortedMap.isEmpty_iff] at hne
      exact hne fun name => Option.eq_none_iff_forall_ne_some.2 fun value hv =>
        hnone ⟨name, value, hv⟩
    exact ⟨hp, ⟨path, name, value⟩, mem_records.2 (value?_eq_some_iff.2 ⟨attrs, ha, hn⟩), rfl⟩
  · rintro ⟨-, r, hr, rfl⟩
    obtain ⟨attrs, ha, -⟩ := value?_eq_some_iff.1 (mem_records.1 hr)
    exact ⟨attrs, ha⟩

theorem ofRecords_records (h : a.Recordable) (hrs : rs.Perm a.records) : ofRecords rs = a := by
  have hmem (path name value : Text) :
      ⟨path, name, value⟩ ∈ rs ↔ a.value? path name = some value :=
    hrs.mem_iff.trans mem_records
  have hcontains (path : Text) : (ofRecords rs).contains path = true ↔ a.contains path = true := by
    rw [contains_ofRecords, contains_iff_mem_records h]
    simp only [hrs.mem_iff]
  refine ext_value? (fun path => Bool.eq_iff_iff.2 (hcontains path)) fun path name => ?_
  apply Option.ext
  intro value
  rw [value?_ofRecords]
  constructor
  · rintro ⟨-, hlast⟩
    exact (hmem path name value).1 hlast.mem
  · intro hv
    obtain ⟨attrs, ha, -⟩ := value?_eq_some_iff.1 hv
    have hp := (h (path, attrs) (SortedMap.get?_eq_some_iff.1 ha)).1
    obtain ⟨value', hlast⟩ := exists_lastGives ⟨_, (hmem path name value).2 hv, rfl, rfl⟩
    have hv' := (hmem path name value').1 hlast.mem
    obtain rfl : value = value' := Option.some.inj (hv.symm.trans hv')
    exact ⟨hp, hlast⟩

end Written

/-- Read back, records whose fields have no NUL give those files that a record names by a path, and
each attribute of a file the value of its last record. Attributes of files that have a path and an
attribute come back, in whatever order they were written. -/
theorem ofAnswer_answer {rs : List AttributeRecord} (h : ∀ r ∈ rs, r.Framable) :
    (∀ path, (ofAnswer (Framing.answer rs)).contains path = true ↔
      path ≠ [] ∧ ∃ r ∈ rs, r.path = path) ∧
    (∀ path name value, (ofAnswer (Framing.answer rs)).value? path name = some value ↔
      path ≠ [] ∧ LastGives rs path name value) ∧
    ∀ a : Attributes, a.Recordable → rs.Perm a.records → ofAnswer (Framing.answer rs) = a := by
  rw [ofAnswer, Framing.records_answer h]
  exact ⟨fun _ => contains_ofRecords, fun _ _ _ => value?_ofRecords,
    fun _ ha hrs => ofRecords_records ha hrs⟩

/-- Records out of order, one on an attribute given before, one without a path and one without a
name; and the attributes that they come to, written in another order. -/
theorem ofAnswer_answer_mixed :
    let a := "a.ts".toList
    let b := "b.ts".toList
    let ts := "ts".toList
    let error := "error".toList
    let rs : List AttributeRecord :=
      [⟨b, ts, "set".toList⟩, ⟨[], ts, error⟩, ⟨a, [], []⟩, ⟨b, ts, error⟩, ⟨a, ts, "all".toList⟩]
    let m : Attributes :=
      .ofList [(a, .ofList [([], []), (ts, "all".toList)]), (b, .ofList [(ts, error)])]
    ofAnswer (Framing.answer rs) = m ∧ (ofAnswer (Framing.answer rs)).value? b ts = some error ∧
      ofAnswer (Framing.answer [⟨b, ts, error⟩, ⟨a, ts, "all".toList⟩, ⟨a, [], []⟩]) = m := by
  intro a b ts error rs m
  have h := @ofAnswer_answer rs (by decide)
  have h' := @ofAnswer_answer [⟨b, ts, error⟩, ⟨a, ts, "all".toList⟩, ⟨a, [], []⟩] (by decide)
  refine ⟨by decide, (h.2.1 b ts error).2 ⟨by decide, ?_⟩, h'.2.2 m (by decide) (by decide)⟩
  exact ⟨rs.take 3, rs.drop 4, by decide, by decide⟩

end Triage.Attributes
