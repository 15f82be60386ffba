import Mathlib.Data.List.Basic
import Triage.AttributeStore.Framing

set_option autoImplicit false

namespace Triage

namespace AttributeRecord

def fields (r : AttributeRecord) : List Text := [r.path, r.name, r.value]

def Framable (r : AttributeRecord) : Prop := ∀ t ∈ r.fields, Framing.nul ∉ t

instance (r : AttributeRecord) : Decidable r.Framable :=
  inferInstanceAs (Decidable (∀ t ∈ r.fields, Framing.nul ∉ t))

end AttributeRecord

namespace Framing

theorem split_fields_append {ts : List Text} (h : ∀ t ∈ ts, nul ∉ t) (rest : Text) :
    Text.split nul (ts.flatMap field ++ rest) = ts ++ Text.split nul rest := by
  have hs := Text.split_lines nul (fun t => t) ts rest
  have hp : ts.flatMap (fun t => Text.split nul t) = ts := by
    rw [List.flatMap_congr fun t ht => Text.split_of_not_mem (h t ht)]
    simp
  rw [hp] at hs
  exact hs

theorem split_fields {ts : List Text} (h : ∀ t ∈ ts, nul ∉ t) :
    Text.split nul (ts.flatMap field) = ts ++ [[]] := by
  simpa [Text.split] using split_fields_append h []

theorem answer_eq (rs : List AttributeRecord) :
    answer rs = (rs.flatMap (·.fields)).flatMap field := by
  simp [answer, AttributeRecord.fields, List.flatMap_assoc]

theorem threes_fields_append (rs : List AttributeRecord) (rest : List Text) :
    threes (rs.flatMap (·.fields) ++ rest) = rs ++ threes rest := by
  induction rs with
  | nil => rfl
  | cons r rs ih => simpa [AttributeRecord.fields, threes] using ih

theorem records_answer_append {rs : List AttributeRecord} (h : ∀ r ∈ rs, r.Framable)
    (rest : Text) : records (answer rs ++ rest) = rs ++ records rest := by
  have hf : ∀ t ∈ rs.flatMap (·.fields), nul ∉ t := by
    intro t ht
    obtain ⟨r, hr, ht⟩ := List.mem_flatMap.1 ht
    exact h r hr t ht
  rw [records, answer_eq, split_fields_append hf, threes_fields_append, records]

theorem records_answer {rs : List AttributeRecord} (h : ∀ r ∈ rs, r.Framable) :
    records (answer rs) = rs := by
  simpa [records, Text.split, threes] using records_answer_append h []

end Framing

end Triage
