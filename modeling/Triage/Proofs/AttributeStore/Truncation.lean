import Triage.Proofs.AttributeStore.Framing

set_option autoImplicit false

/-!
An answer that breaks off. What is left of the record at its end is some whole fields and the start
of the next one (`Framing.cut_fields`). Of a record cut before its value nothing is read; behind the
NUL in front of the value, whatever is there of it counts as the value, even if it is nothing.
-/

namespace Triage

namespace Framing

theorem cut_fields {ts : List Text} {t : Text} (h : t <+: ts.flatMap field)
    (hne : t ≠ ts.flatMap field) :
    ∃ whole next rest part, ts = whole ++ next :: rest ∧ part <+: next ∧
      t = whole.flatMap field ++ part := by
  induction ts generalizing t with
  | nil => exact absurd (List.prefix_nil.1 h) hne
  | cons x ts ih =>
    rw [List.flatMap_cons] at h hne
    rcases List.prefix_or_prefix_of_prefix h (List.prefix_append _ _) with hx | ⟨u, rfl⟩
    · rcases List.prefix_concat_iff.1 hx with rfl | hx
      · -- the text ends just behind the first field, so the next one is cut before its start
        cases ts with
        | nil => exact absurd (by simp [field]) hne
        | cons y ts => exact ⟨[x], y, ts, [], rfl, List.nil_prefix, by simp [field]⟩
      · exact ⟨[], x, ts, t, rfl, hx, by simp⟩
    · rw [List.prefix_append_right_inj] at h
      obtain ⟨whole, next, rest, part, rfl, hpart, rfl⟩ := ih h fun e => hne (by rw [e])
      exact ⟨x :: whole, next, rest, part, rfl, hpart, by simp⟩

theorem records_two_fields {path name : Text} (hp : nul ∉ path) (hn : nul ∉ name) (rest : Text) :
    records (field path ++ field name ++ rest) = threes (path :: name :: Text.split nul rest) := by
  have hfields : ∀ t ∈ [path, name], nul ∉ t := by simp [hp, hn]
  have h := split_fields_append hfields rest
  simp only [List.flatMap_cons, List.flatMap_nil, List.append_nil] at h
  rw [records, h]
  rfl

/-- Of a record that breaks off nothing is read, unless it breaks off in its value. -/
theorem records_cut {r : AttributeRecord} (hr : r.Framable) {t : Text} (h : t <+: answer [r])
    (hne : t ≠ answer [r]) :
    (records t = [] ∧ ∀ part, t ≠ field r.path ++ field r.name ++ part) ∨
      ∃ part, t = field r.path ++ field r.name ++ part ∧ records t = [⟨r.path, r.name, part⟩] := by
  obtain ⟨path, name, value⟩ := r
  have hpath : nul ∉ path := hr path (by simp [AttributeRecord.fields])
  have hname : nul ∉ name := hr name (by simp [AttributeRecord.fields])
  rw [answer_eq, List.flatMap_singleton] at h hne
  obtain ⟨whole, next, rest, part, hfields, hpart, rfl⟩ := cut_fields h hne
  have hsplit : records (whole.flatMap field ++ part) = threes (whole ++ [part]) := by
    rw [records, split_fields_append fun x hx => hr x (by simp [hfields, hx]),
      Text.split_of_not_mem fun hm => hr next (by simp [hfields]) (hpart.subset hm)]
  have hcut (hw : threes (whole ++ [part]) = []) (rest : Text) :
      whole.flatMap field ++ part ≠ field path ++ field name ++ rest := by
    intro he
    obtain ⟨x, xs, hx⟩ := List.exists_cons_of_ne_nil (Text.split_ne_nil nul rest)
    rw [he, records_two_fields hpath hname, hw, hx] at hsplit
    cases hsplit
  rcases whole with _ | ⟨a, _ | ⟨b, _ | ⟨c, whole⟩⟩⟩
  · exact .inl ⟨hsplit, hcut rfl⟩
  · exact .inl ⟨hsplit, hcut rfl⟩
  · cases hfields
    exact .inr ⟨part, by simp, hsplit⟩
  · simp [AttributeRecord.fields] at hfields

end Framing

namespace Attributes

theorem ofAnswer_append {rs : List AttributeRecord} (h : ∀ r ∈ rs, r.Framable) (t : Text) :
    ofAnswer (Framing.answer rs ++ t) =
      (Framing.records t).foldl takeIn (ofAnswer (Framing.answer rs)) := by
  rw [ofAnswer, ofAnswer, Framing.records_answer_append h, Framing.records_answer h, ofRecords,
    List.foldl_append]
  rfl

theorem put_eq_self_iff {a : Attributes} {path name value : Text} :
    a.put path name value = a ↔ a.value? path name = some value := by
  constructor
  · intro h
    rw [← h, value?_put, if_pos ⟨rfl, rfl⟩]
  · intro h
    obtain ⟨attrs, ha, -⟩ := value?_eq_some_iff.1 h
    apply ext_value?
    · intro p
      rw [contains_put]
      by_cases hp : p = path
      · simp [hp, SortedMap.contains, ha]
      · simp [hp]
    · intro p n
      rw [value?_put]
      by_cases hp : p = path ∧ n = name
      · rw [if_pos hp, hp.1, hp.2, h]
      · rw [if_neg hp]

/-- A record that breaks off in its value is taken for a record with what is there of the value. It
is dropped only if it breaks off before, or if the records in front of it come to that value. -/
theorem ofAnswer_truncated_iff {rs : List AttributeRecord} {r : AttributeRecord} {t : Text}
    (hrs : ∀ r ∈ rs, r.Framable) (hr : r.Framable) (hp : r.path ≠ [])
    (ht : t <+: Framing.answer [r]) (hne : t ≠ Framing.answer [r]) :
    (∀ part, t = Framing.field r.path ++ Framing.field r.name ++ part →
      ofAnswer (Framing.answer rs ++ t) =
        (ofAnswer (Framing.answer rs)).put r.path r.name part) ∧
    (ofAnswer (Framing.answer rs ++ t) = ofAnswer (Framing.answer rs) ↔
      ∀ part, t = Framing.field r.path ++ Framing.field r.name ++ part →
        (ofAnswer (Framing.answer rs)).value? r.path r.name = some part) := by
  rw [ofAnswer_append hrs]
  rcases Framing.records_cut hr ht hne with ⟨hrecords, hcut⟩ | ⟨part, rfl, hrecords⟩
  · rw [hrecords]
    exact ⟨fun part he => absurd he (hcut part),
      iff_of_true rfl fun part he => absurd he (hcut part)⟩
  · have htaken : (Framing.records (Framing.field r.path ++ Framing.field r.name ++ part)).foldl
        takeIn (ofAnswer (Framing.answer rs)) =
          (ofAnswer (Framing.answer rs)).put r.path r.name part := by
      rw [hrecords, List.foldl_cons, List.foldl_nil, takeIn, if_neg hp]
    rw [htaken, put_eq_self_iff]
    simp only [List.append_cancel_left_eq]
    exact ⟨fun _ he => by rw [he], fun h _ he => by rw [← he, h], fun h => h part rfl⟩

/-- Cut in the name of its attribute, a record is dropped; cut in front of its value, it is one with
an empty value. -/
theorem ofAnswer_truncated_at_name :
    let rs : List AttributeRecord := [⟨"a.ts".toList, "ts".toList, "unset".toList⟩]
    let r : AttributeRecord := ⟨"b.ts".toList, "ts".toList, "unset".toList⟩
    ofAnswer (Framing.answer rs ++ "b.ts\x00t".toList) = ofAnswer (Framing.answer rs) ∧
      ofAnswer (Framing.answer rs ++ "b.ts\x00ts\x00".toList) =
        (ofAnswer (Framing.answer rs)).put r.path r.name [] := by
  intro rs r
  have hname := @ofAnswer_truncated_iff rs r "b.ts\x00t".toList (by decide) (by decide) (by decide)
    (by decide) (by decide)
  have hvalue := @ofAnswer_truncated_iff rs r "b.ts\x00ts\x00".toList (by decide) (by decide)
    (by decide) (by decide) (by decide)
  refine ⟨hname.2.2 fun part he => ?_, hvalue.1 [] (by decide)⟩
  have hl := congrArg List.length he
  simp [r, Framing.field] at hl

/-- Cut in the value, it gives a file a value that no one assigned. -/
theorem ofAnswer_truncated_at_value :
    let rs : List AttributeRecord := [⟨"a.ts".toList, "ts".toList, "unset".toList⟩]
    let r : AttributeRecord := ⟨"b.ts".toList, "ts".toList, "unset".toList⟩
    let t := "b.ts\x00ts\x00un".toList
    (∀ r ∈ rs, r.Framable) ∧ r.Framable ∧ r.path ≠ [] ∧ t <+: Framing.answer [r] ∧
      t ≠ Framing.answer [r] ∧
      (ofAnswer (Framing.answer rs ++ t)).value? "b.ts".toList "ts".toList = some "un".toList ∧
      ofAnswer (Framing.answer rs ++ t) ≠ ofAnswer (Framing.answer rs) := by
  decide

end Attributes
end Triage
