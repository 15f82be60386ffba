import Mathlib.Data.List.Induction
import Mathlib.Data.List.Nodup
import Triage.SortedMap

set_option autoImplicit false

/-!
Maps and sets put together from lists. Where the keys of a list are distinct its order does not
matter (`SortedMap.ofList_of_perm`), nor does that of two changes of a map (`SortedMap.alter_comm`).
Of several entries for a key the last one counts or the first, as they are put into the map
(`SortedMap.get?_ofList_iff`, `SortedMap.get?_foldl_insertNew`).
A loop over the entries of a map that stops at the first bad one stops at the one with the least key
(`SortedMap.foldlM_error_iff`).
-/

namespace Triage

theorem exists_last_concat {α : Type} {p : α → Prop} [DecidablePred p] {l : List α} {a e : α}
    (he : p e) : (∃ before after, l ++ [a] = before ++ e :: after ∧ ∀ s ∈ after, ¬ p s) ↔
      if p a then a = e else ∃ before after, l = before ++ e :: after ∧ ∀ s ∈ after, ¬ p s := by
  constructor
  · rintro ⟨before, after, h, hlast⟩
    rcases List.eq_nil_or_concat after with rfl | ⟨init, last, rfl⟩
    · obtain rfl := List.singleton_inj.1 (List.append_inj' h rfl).2
      rw [if_pos he]
    · have h' : l ++ [a] = (before ++ e :: init) ++ [last] := by simpa using h
      obtain ⟨rfl, hr⟩ := List.append_inj' h' rfl
      obtain rfl := List.singleton_inj.1 hr
      rw [if_neg (hlast a (by simp))]
      exact ⟨before, init, rfl, fun s hs => hlast s (by simp [hs])⟩
  · split
    · rintro rfl
      exact ⟨l, [], rfl, by simp⟩
    · next ha =>
      rintro ⟨before, after, rfl, hlast⟩
      refine ⟨before, after ++ [a], by simp, fun s hs => ?_⟩
      rcases List.mem_append.1 hs with hs | hs
      · exact hlast s hs
      · rwa [List.mem_singleton.1 hs]

namespace SortedMap
variable {κ ν : Type} [LT κ] [DecidableEq κ] [DecidableLT κ] [KeyOrder κ]

theorem ofList_concat (l : List (κ × ν)) (e : κ × ν) :
    ofList (l ++ [e]) = (ofList l).insert e.1 e.2 := by
  simp [ofList]

theorem get?_ofList {l : List (κ × ν)} (hl : (l.map Prod.fst).Nodup) (k : κ) (v : ν) :
    (ofList l).get? k = some v ↔ (k, v) ∈ l := by
  induction l using List.reverseRecOn with
  | nil => simp [ofList]
  | append_singleton l e ih =>
    obtain ⟨j, w⟩ := e
    rw [List.map_append, List.nodup_append] at hl
    obtain ⟨hl, _, hj⟩ := hl
    rw [ofList_concat, get?_insert]
    by_cases hk : k = j
    · subst hk
      have hn : (k, v) ∉ l := fun hm => hj k (List.mem_map_of_mem hm) k (by simp) rfl
      simp [hn, eq_comm]
    · simp [hk, ih hl]

def LastGives (l : List (κ × ν)) (k : κ) (v : ν) : Prop :=
  ∃ before after, l = before ++ (k, v) :: after ∧ ∀ e ∈ after, e.1 ≠ k

omit [LT κ] [DecidableEq κ] [DecidableLT κ] [KeyOrder κ] in
theorem LastGives.mem {l : List (κ × ν)} {k : κ} {v : ν} (h : LastGives l k v) : (k, v) ∈ l := by
  obtain ⟨before, after, rfl, -⟩ := h
  simp

omit [LT κ] [DecidableLT κ] [KeyOrder κ] in
theorem lastGives_concat (l : List (κ × ν)) (e : κ × ν) (k : κ) (v : ν) :
    LastGives (l ++ [e]) k v ↔ if e.1 = k then e.2 = v else LastGives l k v := by
  refine (exists_last_concat (p := fun s : κ × ν => s.1 = k) rfl).trans ?_
  split
  · next hk => rw [Prod.ext_iff, and_iff_right hk]
  · rfl

theorem get?_ofList_iff {l : List (κ × ν)} {k : κ} {v : ν} :
    (ofList l).get? k = some v ↔ LastGives l k v := by
  induction l using List.reverseRecOn with
  | nil => simp [ofList, LastGives]
  | append_singleton l e ih =>
    rw [ofList_concat, get?_insert, lastGives_concat]
    by_cases hk : e.1 = k
    · simp [hk]
    · simp [hk, Ne.symm hk, ih]

theorem get?_foldl_insertNew {α : Type} (key : α → κ) (value : α → ν) (l : List α)
    (m : SortedMap κ ν) (k : κ) :
    (l.foldl (fun m a => m.insertNew (key a) (value a)) m).get? k =
      (m.get? k).or ((l.find? (key · = k)).map value) := by
  induction l generalizing m with
  | nil => simp
  | cons a l ih =>
    rw [List.foldl_cons, ih, get?_insertNew, List.find?_cons]
    by_cases hk : key a = k
    · subst hk
      cases m.get? (key a) <;> simp
    · simp [hk, Ne.symm hk]

omit [DecidableEq κ] [DecidableLT κ] in
/-- In the order of the keys the first entry that passes a test is the one with the least key. -/
theorem find?_eq_some_iff_least {l : List (κ × ν)} (hl : l.Pairwise fun a b => a.1 < b.1)
    {p : κ × ν → Bool} {e : κ × ν} :
    l.find? p = some e ↔ e ∈ l ∧ p e = true ∧ ∀ b ∈ l, p b = true → ¬ b.1 < e.1 := by
  induction l with
  | nil => simp
  | cons a l ih =>
    obtain ⟨ha, hl⟩ := List.pairwise_cons.1 hl
    rw [List.find?_cons]
    cases hp : p a with
    | true =>
      constructor
      · rintro ⟨⟩
        refine ⟨by simp, hp, fun b hb _ => ?_⟩
        rcases List.mem_cons.1 hb with rfl | hb
        · exact KeyOrder.irrefl _
        · exact fun hlt => KeyOrder.irrefl _ (KeyOrder.trans hlt (ha b hb))
      · rintro ⟨he, -, hleast⟩
        rcases List.mem_cons.1 he with rfl | he
        · rfl
        · exact absurd (ha e he) (hleast a (by simp) hp)
    | false =>
      rw [ih hl]
      constructor
      · rintro ⟨he, hpe, hleast⟩
        exact ⟨by simp [he], hpe, fun b hb hpb => by
          rcases List.mem_cons.1 hb with rfl | hb
          · simp [hp] at hpb
          · exact hleast b hb hpb⟩
      · rintro ⟨he, hpe, hleast⟩
        rcases List.mem_cons.1 he with rfl | he
        · simp [hp] at hpe
        · exact ⟨he, hpe, fun b hb => hleast b (by simp [hb])⟩

omit [DecidableEq κ] [DecidableLT κ] in
theorem nodup_keys (m : SortedMap κ ν) : m.keys.Nodup := by
  refine List.pairwise_map.2 (m.sorted.imp fun h e => ?_)
  rw [e] at h
  exact KeyOrder.irrefl _ h

theorem ofList_of_perm {l : List (κ × ν)} {m : SortedMap κ ν} (h : l.Perm m.entries) :
    ofList l = m := by
  have hl : (l.map Prod.fst).Nodup := (h.map Prod.fst).nodup_iff.2 m.nodup_keys
  apply ext_get?
  intro k
  apply Option.ext
  intro v
  rw [get?_ofList hl, get?_eq_some_iff, h.mem_iff]

omit [DecidableLT κ] in
theorem mem_keys {m : SortedMap κ ν} {k : κ} : k ∈ m.keys ↔ m.contains k = true := by
  simp only [keys, contains, Option.isSome_iff_exists, get?_eq_some_iff, List.mem_map,
    Prod.exists, exists_and_right, exists_eq_right]

theorem contains_addAll (s : SortedSet κ) (l : List κ) (k : κ) :
    (s.addAll l).contains k = true ↔ s.contains k = true ∨ k ∈ l := by
  induction l generalizing s with
  | nil => simp [SortedSet.addAll]
  | cons j l ih =>
    change (SortedSet.addAll (s.add j) l).contains k = true ↔ _
    rw [ih]
    by_cases hk : k = j <;> simp [SortedSet.add, contains, hk]

theorem contains_ofList (l : List κ) (k : κ) :
    (SortedSet.ofList l).contains k = true ↔ k ∈ l := by
  have h := contains_addAll .empty l k
  simpa [contains, SortedSet.addAll, SortedSet.ofList] using h

theorem ofList_keys (s : SortedSet κ) : SortedSet.ofList s.keys = s := by
  apply ext_contains
  · intro k
    rw [Bool.eq_iff_iff, contains_ofList, mem_keys]
  · intros
    rfl

/-- Changes of two entries may change places; at one key the functions have to commute. -/
theorem alter_comm (m : SortedMap κ ν) {j k : κ} {f g : Option ν → ν}
    (h : j = k → ∀ v, g (some (f v)) = f (some (g v))) :
    (m.alter j f).alter k g = (m.alter k g).alter j f := by
  apply ext_get?
  intro i
  by_cases hjk : j = k
  · subst hjk
    by_cases hi : i = j <;> simp [hi, h]
  · by_cases hi : i = j
    · subst hi
      simp [hjk]
    · simp [hi, Ne.symm hjk]

omit [DecidableLT κ] in
theorem mapValues_congr {μ : Type} {m n : SortedMap κ ν} {f : ν → μ}
    (hc : ∀ k, m.contains k = n.contains k)
    (hv : ∀ k v w, m.get? k = some v → n.get? k = some w → f v = f w) :
    (m.mapValues fun _ => f) = n.mapValues fun _ => f := by
  apply ext_contains
  · intro k
    simpa [contains] using hc k
  · intro k a b ha hb
    rw [get?_mapValues] at ha hb
    obtain ⟨v, hm, rfl⟩ := Option.map_eq_some_iff.1 ha
    obtain ⟨w, hn, rfl⟩ := Option.map_eq_some_iff.1 hb
    exact hv k v w hm hn

section Loops
variable {σ ε : Type} {f : σ → κ × ν → Except ε σ} {Bad : κ × ν → ε → Prop}

omit [DecidableEq κ] [DecidableLT κ] in
theorem foldlM_error_iff (h : ∀ s a e, f s a = .error e ↔ Bad a e) {l : List (κ × ν)}
    (hl : l.Pairwise fun a b => a.1 < b.1) (s : σ) (e : ε) :
    l.foldlM f s = .error e ↔
      ∃ a ∈ l, Bad a e ∧ ∀ b ∈ l, ∀ e', Bad b e' → ¬ b.1 < a.1 := by
  induction l generalizing s with
  | nil => simp [pure, Except.pure]
  | cons a l ih =>
    obtain ⟨ha, hl⟩ := List.pairwise_cons.1 hl
    rw [List.foldlM_cons]
    cases hs : f s a with
    | error e₀ =>
      have hbad := (h s a e₀).1 hs
      change Except.error e₀ = .error e ↔ _
      constructor
      · rintro ⟨⟩
        refine ⟨a, by simp, hbad, fun b hb _ _ => ?_⟩
        rcases List.mem_cons.1 hb with rfl | hb
        · exact KeyOrder.irrefl _
        · exact fun hlt => KeyOrder.irrefl _ (KeyOrder.trans hlt (ha b hb))
      · rintro ⟨b, hb, hbe, hleast⟩
        rcases List.mem_cons.1 hb with rfl | hb
        · rw [← hs]
          exact (h s b e).2 hbe
        · exact absurd (ha b hb) (hleast a (by simp) e₀ hbad)
    | ok s' =>
      have hgood : ∀ e', ¬ Bad a e' := fun e' hb => by
        have he := (h s a e').2 hb
        rw [hs] at he
        cases he
      change l.foldlM f s' = .error e ↔ _
      rw [ih hl]
      simp [hgood]

omit [LT κ] [DecidableEq κ] [DecidableLT κ] [KeyOrder κ] in
theorem foldlM_ok_iff (h : ∀ s a e, f s a = .error e ↔ Bad a e) (l : List (κ × ν)) (s : σ) :
    (∃ s', l.foldlM f s = .ok s') ↔ ∀ a ∈ l, ∀ e, ¬ Bad a e := by
  induction l generalizing s with
  | nil => simp [pure, Except.pure]
  | cons a l ih =>
    rw [List.foldlM_cons, List.forall_mem_cons]
    cases hs : f s a with
    | error e =>
      have hbad := (h s a e).1 hs
      constructor
      · rintro ⟨s', ⟨⟩⟩
      · exact fun hall => absurd hbad (hall.1 e)
    | ok s' =>
      have hgood : ∀ e, ¬ Bad a e := fun e hb => by
        have he := (h s a e).2 hb
        rw [hs] at he
        cases he
      exact (ih s').trans ⟨fun hall => ⟨hgood, hall⟩, And.right⟩

end Loops
end SortedMap
end Triage
