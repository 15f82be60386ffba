import Mathlib.Data.List.Perm.Basic
import Triage.AttributeStore
import Triage.Proofs.AttributeStore.RoundTrip
import Triage.Proofs.Rule.Attribute
import Triage.Proofs.Text.Utf8
import Triage.Proofs.World.Attempt

set_option autoImplicit false

/-!
A query of an attribute store that answers from an assignment of attributes to paths. The files of
the work tree go out and their attributes come back, so the rules are those that the assignment
declares for these files, and each file is answered as if it were asked about alone.
-/

namespace Triage

abbrev Assignment := Text → SortedMap Text Text

/-- No path of a set is empty or has a NUL in it. -/
def Askable (files : SortedSet Text) : Prop :=
  ∀ path ∈ files.keys, path ≠ [] ∧ Framing.nul ∉ path

instance (files : SortedSet Text) : Decidable (Askable files) :=
  inferInstanceAs (Decidable (∀ path ∈ files.keys, path ≠ [] ∧ Framing.nul ∉ path))

namespace Assignment
variable {A : Assignment} {root out path : Text} {paths : List Text} {files : SortedSet Text}

/-- What a store prints about paths: the records of one after those of another, each path's own in
any order. -/
def Printed (A : Assignment) (paths : List Text) (out : Text) : Prop :=
  ∃ order : Text → List (Text × Text), (∀ path ∈ paths, (order path).Perm (A path).entries) ∧
    out = Framing.answer
      (paths.flatMap fun path => (order path).map fun a => ⟨path, a.1, a.2⟩)

/-- No name and no value has a NUL in it. -/
def Framable (A : Assignment) : Prop :=
  ∀ path, ∀ a ∈ (A path).entries, Framing.nul ∉ a.1 ∧ Framing.nul ∉ a.2

/-- The attributes of those files of a set that lie below a root and have any. -/
def within (A : Assignment) (root : Text) (files : SortedSet Text) : Attributes :=
  (files.mapValues fun path _ => A path).filter fun path attrs =>
    isWithin root path && !attrs.isEmpty

theorem get?_within (A : Assignment) (root : Text) (files : SortedSet Text) (path : Text) :
    (A.within root files).get? path =
      if files.contains path = true ∧ isWithin root path = true ∧ (A path).isEmpty = false
      then some (A path) else none := by
  cases hf : files.get? path with
  | none => simp [within, SortedMap.contains, hf]
  | some u =>
    by_cases h : isWithin root path = true ∧ (A path).isEmpty = false
    · simp [within, SortedMap.contains, hf, h]
    · rw [if_neg fun hc => h hc.2]
      simpa [within, hf] using h

theorem recordable_within (hf : Askable files) : (A.within root files).Recordable := by
  intro file hfile
  obtain ⟨hfile, htest⟩ := List.mem_filter.1 hfile
  obtain ⟨entry, hentry, rfl⟩ := List.mem_map.1 hfile
  simp only [Bool.and_eq_true, Bool.not_eq_true'] at htest
  exact ⟨(hf _ (List.mem_map_of_mem hentry)).1, htest.2⟩

theorem records_within (A : Assignment) (root : Text) (files : SortedSet Text) :
    (A.within root files).records = (files.keys.filter (isWithin root)).flatMap fun path =>
      (A path).entries.map fun a => ⟨path, a.1, a.2⟩ := by
  simp only [Attributes.records, within, SortedMap.filter, SortedMap.mapValues, SortedMap.keys]
  induction files.entries with
  | nil => rfl
  | cons e l ih =>
    rw [List.map_cons, List.map_cons, List.filter_cons, List.filter_cons]
    by_cases hw : isWithin root e.1 = true
    · by_cases he : (A e.1).isEmpty = true
      · have hn : (A e.1).entries = [] := List.isEmpty_iff.1 he
        simp [hw, he, hn, ih]
      · simp [hw, he, ih]
    · simp [hw, ih]

/-- Read back, what is printed about the files below a root gives the attributes of those that have
any. -/
theorem ofAnswer_within (hf : Askable files)
    (h : A.Printed (files.keys.filter (isWithin root)) out) (hA : A.Framable) :
    Attributes.ofAnswer out = A.within root files := by
  obtain ⟨order, ho, rfl⟩ := h
  have hrs : ((files.keys.filter (isWithin root)).flatMap fun path =>
      (order path).map fun a => (⟨path, a.1, a.2⟩ : AttributeRecord)).Perm
        (A.within root files).records := by
    rw [records_within]
    exact List.Perm.flatMap_left _ fun path hp => (ho path hp).map _
  have hframable : ∀ r ∈ (files.keys.filter (isWithin root)).flatMap fun path =>
      (order path).map fun a => (⟨path, a.1, a.2⟩ : AttributeRecord), r.Framable := by
    intro r hr
    obtain ⟨path, hp, hr⟩ := List.mem_flatMap.1 hr
    obtain ⟨a, ha, rfl⟩ := List.mem_map.1 hr
    have hn := hA path a ((ho path hp).mem_iff.1 ha)
    have hpath := (hf path (List.mem_filter.1 hp).1).2
    simpa [AttributeRecord.Framable, AttributeRecord.fields] using ⟨hpath, hn⟩
  rw [Attributes.ofAnswer, Framing.records_answer hframable,
    Attributes.ofRecords_records (recordable_within hf) hrs]

theorem within_eq_empty (A : Assignment) (h : files.keys.filter (isWithin root) = []) :
    A.within root files = .empty := by
  apply SortedMap.ext_get?
  intro path
  rw [get?_within, if_neg]
  · rfl
  · rintro ⟨hf, hr, _⟩
    exact List.filter_eq_nil_iff.1 h path (SortedMap.mem_keys.2 hf) hr

theorem get?_within_eq_some {attrs : SortedMap Text Text} :
    (A.within root files).get? path = some attrs ↔
      files.contains path = true ∧ isWithin root path = true ∧ (A path).isEmpty = false ∧
        A path = attrs := by
  simp [get?_within, and_assoc]

theorem within_addAll {files' : SortedSet Text} {attrs : SortedMap Text Text} :
    (A.within root (files.addAll files'.keys)).get? path = some attrs ↔
      (A.within root files).get? path = some attrs ∨
        (A.within root files').get? path = some attrs := by
  simp only [get?_within_eq_some, SortedMap.contains_addAll, SortedMap.mem_keys, or_and_right]

theorem rules_within_addAll {files' : SortedSet Text} {stem : Text} {rules rules' : ProjectRules}
    (h : ProjectRules.ofAttributes stem (A.within root files) = .ok rules)
    (h' : ProjectRules.ofAttributes stem (A.within root files') = .ok rules') :
    ∃ both, ProjectRules.ofAttributes stem (A.within root (files.addAll files'.keys)) = .ok both ∧
      ∀ path r, both.get? path = some r ↔ rules.get? path = some r ∨ rules'.get? path = some r := by
  obtain ⟨both, hb⟩ := ProjectRules.ofAttributes_ok_iff.2 fun path attrs ha =>
    (within_addAll.1 ha).elim (ProjectRules.ofAttributes_ok_iff.1 ⟨rules, h⟩ path attrs)
      (ProjectRules.ofAttributes_ok_iff.1 ⟨rules', h'⟩ path attrs)
  refine ⟨both, hb, fun path r => ?_⟩
  simp only [ProjectRules.get?_of_ofAttributes hb, ProjectRules.get?_of_ofAttributes h,
    ProjectRules.get?_of_ofAttributes h', Option.bind_eq_some_iff, within_addAll, or_and_right,
    exists_or]

end Assignment

theorem Askable.addAll {files files' : SortedSet Text} (h : Askable files) (h' : Askable files') :
    Askable (files.addAll files'.keys) := by
  intro path hp
  rcases (SortedMap.contains_addAll files files'.keys path).1 (SortedMap.mem_keys.1 hp) with hm | hm
  · exact h path (SortedMap.mem_keys.2 hm)
  · exact h' path hm

namespace AttributeStore
variable {s : AttributeStore} {w : World} {root stem : Text} {A : Assignment}

/-- The store of a world prints a root and answers from an assignment. Asked, it changes no file and
starts nothing itself. -/
structure Serves (s : AttributeStore) (w : World) (root : Text) (A : Assignment) : Prop where
  root : ∃ err, w.start (s.launch rootArgs none) =
    .ok ⟨⟨some 0, Utf8.encode (root ++ ['\n']), err⟩, w.tree, []⟩
  attributes : ∀ paths : List Text, (∀ path ∈ paths, path ≠ [] ∧ Framing.nul ∉ path) →
    ∃ out err, A.Printed paths out ∧
      w.start (s.launch attributeArgs (some (Framing.request paths))) =
        .ok ⟨⟨some 0, Utf8.encode out, err⟩, w.tree, []⟩

theorem trim_line (hr : root.head? = some '/') (he : root.getLast?.any Text.isBlank = false) :
    Text.trim Text.isBlank (root ++ ['\n']) = root := by
  have hs : Text.trimStart Text.isBlank (root ++ ['\n']) = root ++ ['\n'] := by
    cases root with
    | nil => cases hr
    | cons c r =>
      cases hr
      rfl
  have hb : Text.isBlank '\n' = true := by decide
  rw [Text.trim, hs, Text.trimEnd, List.reverse_append, List.reverse_singleton,
    List.singleton_append, List.dropWhile_cons, if_pos hb]
  exact Text.trimEnd_of_getLast he

theorem run_root (h : s.Serves w root A) (hr : root.head? = some '/')
    (he : root.getLast?.any Text.isBlank = false) :
    s.root.run w = ⟨.ok root, w, [s.launch rootArgs none]⟩ := by
  obtain ⟨err, hw⟩ := h.root
  rw [AttributeStore.root, Attempt.run_bind_ok (Attempt.run_orFail (Action.run_execute hw) _)]
  have hs : (Finished.ofExit ⟨some 0, Utf8.encode (root ++ ['\n']), err⟩).succeeded = true := rfl
  have ho : (Finished.ofExit ⟨some 0, Utf8.encode (root ++ ['\n']), err⟩).stdout =
      root ++ ['\n'] := Utf8.lossy_encode _
  simp only [hs, ho, if_true, trim_line hr he, Attempt.run_pure]
  rfl

theorem run_attributes {paths : List Text} (h : s.Serves w root A)
    (hp : ∀ path ∈ paths, path ≠ [] ∧ Framing.nul ∉ path) :
    ∃ out, A.Printed paths out ∧ (s.attributes paths).run w =
      ⟨.ok (Attributes.ofAnswer out), w,
        [s.launch attributeArgs (some (Framing.request paths))]⟩ := by
  obtain ⟨out, err, ho, hw⟩ := h.attributes paths hp
  refine ⟨out, ho, ?_⟩
  rw [AttributeStore.attributes,
    Attempt.run_bind_ok (Attempt.run_orFail (Action.run_executeChecked hw rfl) _)]
  simp only [Utf8.lossy_encode, Attempt.run_pure]
  rfl

/-- The programs that a query starts: none without files, the second only where a file lies below
the root. -/
def calls (s : AttributeStore) (root : Text) (files : SortedSet Text) : List Launch :=
  let inside := files.keys.filter (isWithin root)
  if files.isEmpty then []
  else if inside = [] then [s.launch rootArgs none]
  else [s.launch rootArgs none,
    s.launch attributeArgs (some (inside.flatMap fun path => path ++ ['\x00']))]

theorem run_query {files : SortedSet Text} (h : s.Serves w root A) (hr : root.head? = some '/')
    (he : root.getLast?.any Text.isBlank = false) (hA : A.Framable) (hf : Askable files)
    (stem : Text) : (s.query files stem).run w =
      ⟨(ProjectRules.ofAttributes stem (A.within root files)).mapError .rule, w,
        s.calls root files⟩ := by
  unfold query calls
  by_cases hn : files.isEmpty = true
  · have hk : files.keys = [] := by
      simpa [SortedMap.keys, SortedMap.isEmpty] using hn
    rw [if_pos hn, if_pos hn, A.within_eq_empty (by simp [hk])]
    rfl
  · rw [if_neg hn, if_neg hn, Attempt.run_bind_ok (run_root h hr he)]
    by_cases hi : files.keys.filter (isWithin root) = []
    · rw [if_pos hi, if_pos hi, A.within_eq_empty hi]
      rfl
    · have hp : ∀ p ∈ files.keys.filter (isWithin root), p ≠ [] ∧ Framing.nul ∉ p := fun p hp =>
        hf p (List.mem_filter.1 hp).1
      obtain ⟨out, ho, ha⟩ := run_attributes h hp
      rw [if_neg hi, if_neg hi, Attempt.run_bind_ok ha, Attempt.run_ofExcept,
        Assignment.ofAnswer_within hf ho hA]
      rfl

/-- A query comes to the rules, or the rule error, of the attributes that the files below the root
are assigned, and starts no more programs than it needs. Two queries that succeed give together what
one for all their files gives. -/
theorem query_pointwise (h : s.Serves w root A) (hr : root.head? = some '/')
    (he : root.getLast?.any Text.isBlank = false) (hA : A.Framable) (stem : Text) :
    (∀ files, Askable files → (s.query files stem).run w =
      ⟨(ProjectRules.ofAttributes stem (A.within root files)).mapError .rule, w,
        s.calls root files⟩) ∧
    ∀ files files' rules rules', Askable files → Askable files' →
      ((s.query files stem).run w).value = .ok rules →
      ((s.query files' stem).run w).value = .ok rules' →
      ∃ both, ((s.query (files.addAll files'.keys) stem).run w).value = .ok both ∧
        ∀ path r, both.get? path = some r ↔
          rules.get? path = some r ∨ rules'.get? path = some r := by
  have hq (files : SortedSet Text) (hf : Askable files) := run_query h hr he hA hf stem
  have hv (files : SortedSet Text) (hf : Askable files) (rules : ProjectRules) :
      ((s.query files stem).run w).value = .ok rules ↔
        ProjectRules.ofAttributes stem (A.within root files) = .ok rules := by
    rw [hq files hf, Attempt.mapError_eq_ok]
  refine ⟨hq, fun files files' rules rules' hf hf' hk hk' => ?_⟩
  simp only [hv _ (hf.addAll hf')]
  exact Assignment.rules_within_addAll ((hv files hf rules).1 hk) ((hv files' hf' rules').1 hk')

/-- The attributes of the paths of a request, each path's in the order of their names. -/
def reply (A : Assignment) (request : Text) : Text :=
  Framing.answer ((Text.split Framing.nul request).dropLast.flatMap fun path =>
    (A path).entries.map fun a => ⟨path, a.1, a.2⟩)

/-- A world without files. Its store prints a root and answers from an assignment. -/
def serving (root : Text) (A : Assignment) : World where
  tree := .empty
  stdin := []
  currentDir := .ok ['/']
  programs := fun tree l =>
    let (code, out) :=
      if l.args = rootArgs then (0, root ++ ['\n'])
      else if l.args = attributeArgs then (0, reply A (l.input.getD []))
      else (128, [])
    .ok ⟨⟨some code, Utf8.encode out, []⟩, tree, []⟩

theorem printed_reply (A : Assignment) {paths : List Text}
    (h : ∀ path ∈ paths, Framing.nul ∉ path) :
    A.Printed paths (reply A (Framing.request paths)) := by
  refine ⟨fun path => (A path).entries, fun _ _ => .refl _, ?_⟩
  rw [reply, Framing.request, Framing.split_fields h, List.dropLast_concat]

theorem serves_serving (root : Text) (A : Assignment) :
    (⟨['/']⟩ : AttributeStore).Serves (serving root A) root A where
  root := ⟨[], rfl⟩
  attributes _ hp := ⟨_, [], printed_reply A fun p h => (hp p h).2, rfl⟩

/-- One file with rules, one with an attribute of another stem, one without attributes and one
outside the root. -/
theorem query_pointwise_mixed :
    let s : AttributeStore := ⟨['/']⟩
    let a := "/r/a.ts".toList
    let b := "/r/b.ts".toList
    let A : Assignment := fun path =>
      if path = a then .ofList [("ts7".toList, "error".toList), ("ts".toList, "unset".toList)]
      else if path = b then .ofList [("text".toList, "set".toList)]
      else .empty
    let w := serving "/r".toList A
    let files := SortedSet.ofList ["/x.ts".toList, "/r/c.ts".toList, b, a]
    let o := (s.query files "ts".toList).run w
    o.value = .ok (.ofList [(a, ⟨.ignore, .ofList [(7, .asError)]⟩), (b, .passing)]) ∧
      o.launches = [s.launch rootArgs none,
        s.launch attributeArgs (some "/r/a.ts\x00/r/b.ts\x00/r/c.ts\x00".toList)] := by
  intro s a b A w files o
  have hA : A.Framable := by
    intro path
    by_cases ha : path = a
    · subst ha
      decide
    · by_cases hb : path = b
      · subst hb
        decide
      · have he : A path = .empty := (if_neg ha).trans (if_neg hb)
        rw [he]
        decide
  have h := (query_pointwise (serves_serving "/r".toList A) rfl (by decide) hA "ts".toList).1 files
    (by decide)
  have ho : o = _ := h
  rw [ho]
  exact ⟨by decide, by decide⟩

end AttributeStore
end Triage
