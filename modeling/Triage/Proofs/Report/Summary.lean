import Triage.Proofs.Json.RoundTrip
import Triage.Report.Summary

set_option autoImplicit false

namespace Triage.Report
open Json

theorem mem_shown {s : Summary} {known : SortedSet Text} {e : Text × Tally} :
    e ∈ shown s known ↔ s.get? e.1 = some e.2 ∧ e.2.isReportable = true := by
  obtain ⟨path, t⟩ := e
  simp only [shown, order, List.mem_filterMap, List.mem_filter, SortedMap.mem_keys,
    SortedMap.contains_addAll, Option.map_eq_some_iff, Prod.mk.injEq]
  constructor
  · rintro ⟨p, ⟨-, hr⟩, t', ht, rfl, rfl⟩
    rw [ht] at hr
    exact ⟨ht, hr⟩
  · rintro ⟨ht, hr⟩
    refine ⟨path, ⟨.inr ?_, ?_⟩, t, ht, rfl, rfl⟩
    · rw [SortedMap.contains, ht]
      rfl
    · rw [ht]
      exact hr

theorem sorted_shown (s : Summary) (known : SortedSet Text) :
    (shown s known).Pairwise fun a b => a.1 < b.1 := by
  have hk : (order s known).Pairwise (· < ·) :=
    (List.pairwise_map.2 (SortedSet.addAll known s.keys).sorted).filter _
  refine hk.filterMap _ fun p q hpq a ha b hb => ?_
  obtain ⟨_, -, rfl⟩ := Option.map_eq_some_iff.1 ha
  obtain ⟨_, -, rfl⟩ := Option.map_eq_some_iff.1 hb
  exact hpq

theorem shown_eq (s : Summary) (known : SortedSet Text) : shown s known = s.reportable.entries := by
  -- entries that are in order are those of a map, so it is enough to find the same ones
  have h : (⟨shown s known, sorted_shown s known⟩ : Summary) = s.reportable := by
    apply SortedMap.ext_get?
    intro path
    apply Option.ext
    intro t
    rw [SortedMap.get?_eq_some_iff, mem_shown, Summary.reportable, SortedMap.get?_filter,
      Option.filter_eq_some_iff]
  rw [← h]

section Document
variable {s : Summary} {known : SortedSet Text} {count : Decoder Nat}

theorem restores_reportable (h : ∀ t ∈ s.values, ∀ n ∈ t.counted, Restores count ofNat n) :
    Restores (map unescape (Tally.ofJsonWith count)) (ofMap escape Tally.toJson) s.reportable := by
  apply restores_files
  intro t ht
  obtain ⟨e, he, rfl⟩ := List.mem_map.1 ht
  exact restores_tally (h e.2 (List.mem_map_of_mem (List.mem_filter.1 he).1))

theorem spelt_summaryJson (s : Summary) (known : SortedSet Text) : (summaryJson s known).Spelt := by
  have hfiles := (restores_reportable (s := s) fun _ _ n _ => restores_count n).spelt
  have htotals : (record [("files", ofNat (shown s known).length),
      ("raised", ofNat (figure s.raisedTotal)), ("ignored", ofNat (figure s.ignoredTotal)),
      ("unnecessary_rules", ofNat (figure s.staleTotal))]).Spelt := by
    apply Spelt.record
    simpa only [List.forall_mem_cons] using
      ⟨.number _, .number _, .number _, .number _, List.forall_mem_nil _⟩
  apply Spelt.record
  rw [shown_eq] at htotals ⊢
  simpa only [List.forall_mem_cons] using
    ⟨(restores_text version).spelt, htotals, hfiles, List.forall_mem_nil _⟩

theorem ofJsonWith_summaryJson (h : ∀ t ∈ s.values, ∀ n ∈ t.counted, Restores count ofNat n) :
    Summary.ofJsonWith count (summaryJson s known) = some s.reportable := by
  have hs : slots ["files".toList] (summaryJson s known) =
      some [.given (ofMap escape Tally.toJson s.reportable)] := by
    rw [summaryJson, shown_eq]
    exact @slots_record _ [("files", ofMap escape Tally.toJson s.reportable)] (by simp)
      (by simp [ofMap])
  simp only [Summary.ofJsonWith, hs]
  exact (restores_reportable h).decode

end Document
end Triage.Report
