set_option autoImplicit false

/-!
Finite maps as lists of entries in strictly increasing key order. A map has one form only: two maps
with the same look-ups are equal as values (`SortedMap.ext_get?`). Sets are maps to `Unit`.
-/

namespace Triage

class KeyOrder (κ : Type) [LT κ] : Prop where
  irrefl (a : κ) : ¬ a < a
  trans {a b c : κ} : a < b → b < c → a < c
  connected {a b : κ} : a ≠ b → ¬ a < b → b < a

namespace KeyOrder

theorem of_linear (κ : Type) [LT κ] [LE κ] [Std.IsLinearOrder κ] [Std.LawfulOrderLT κ] :
    KeyOrder κ where
  irrefl a := by grind
  trans h h' := by grind
  connected h h' := by grind

instance : KeyOrder Nat := of_linear Nat
instance : KeyOrder UInt32 := of_linear UInt32
instance : KeyOrder (List Char) := of_linear (List Char)
instance : KeyOrder (List (List Char)) := of_linear (List (List Char))

end KeyOrder

structure SortedMap (κ ν : Type) [LT κ] where
  entries : List (κ × ν)
  sorted : entries.Pairwise (fun a b => a.1 < b.1)

namespace SortedMap

section Raw
variable {κ ν μ : Type} [LT κ] [DecidableEq κ] [DecidableLT κ]

def find (k : κ) : List (κ × ν) → Option ν
  | [] => none
  | (j, v) :: r => if k = j then some v else find k r

/-- Replaces the value at a key, or puts a new one where the order wants it. -/
def alterAt (k : κ) (f : Option ν → ν) : List (κ × ν) → List (κ × ν)
  | [] => [(k, f none)]
  | (j, v) :: r =>
    if k = j then (j, f (some v)) :: r
    else if k < j then (k, f none) :: (j, v) :: r
    else (j, v) :: alterAt k f r

theorem mem_alterAt {k : κ} {f : Option ν → ν} {l : List (κ × ν)} {e : κ × ν}
    (h : e ∈ alterAt k f l) : e.1 = k ∨ e ∈ l := by
  induction l with
  | nil => simp [alterAt] at h; simp [h]
  | cons a r ih =>
    obtain ⟨j, v⟩ := a
    unfold alterAt at h
    split at h
    · next hk => rcases List.mem_cons.1 h with rfl | h <;> simp_all
    · split at h
      · rcases List.mem_cons.1 h with rfl | h <;> simp_all
      · rcases List.mem_cons.1 h with rfl | h
        · simp
        · rcases ih h with h | h <;> simp [h]

theorem sorted_alterAt [KeyOrder κ]
    (k : κ) (f : Option ν → ν) {l : List (κ × ν)} (h : l.Pairwise (fun a b => a.1 < b.1)) :
    (alterAt k f l).Pairwise (fun a b => a.1 < b.1) := by
  induction l with
  | nil => simp [alterAt]
  | cons a r ih =>
    obtain ⟨j, v⟩ := a
    have hj := (List.pairwise_cons.1 h).1
    have hr := (List.pairwise_cons.1 h).2
    unfold alterAt
    split
    · exact List.pairwise_cons.2 ⟨hj, hr⟩
    · next hk =>
      split
      · next hlt =>
        refine List.pairwise_cons.2 ⟨fun e he => ?_, h⟩
        rcases List.mem_cons.1 he with rfl | he
        · exact hlt
        · exact KeyOrder.trans hlt (hj e he)
      · next hlt =>
        refine List.pairwise_cons.2 ⟨fun e he => ?_, ih hr⟩
        rcases mem_alterAt he with rfl | he
        · exact KeyOrder.connected hk hlt
        · exact hj e he

omit [DecidableLT κ] in
theorem find_eq_none [KeyOrder κ]
    {k : κ} {l : List (κ × ν)} (h : ∀ e ∈ l, k < e.1) : find k l = none := by
  induction l with
  | nil => rfl
  | cons a r ih =>
    have hk : ¬ k = a.1 := fun e => KeyOrder.irrefl k (by simpa [← e] using h a (by simp))
    rw [find, if_neg hk, ih fun e he => h e (by simp [he])]

theorem find_alterAt [KeyOrder κ]
    (k i : κ) (f : Option ν → ν) {l : List (κ × ν)} (h : l.Pairwise (fun a b => a.1 < b.1)) :
    find i (alterAt k f l) = if i = k then some (f (find k l)) else find i l := by
  induction l with
  | nil => simp [alterAt, find]
  | cons a r ih =>
    obtain ⟨j, v⟩ := a
    have hj := (List.pairwise_cons.1 h).1
    have ih := ih (List.pairwise_cons.1 h).2
    by_cases hk : k = j
    · subst hk
      by_cases hi : i = k <;> simp [alterAt, find, hi]
    · by_cases hlt : k < j
      · have hn : find k r = none := find_eq_none fun e he => KeyOrder.trans hlt (hj e he)
        by_cases hi : i = k <;> simp [alterAt, find, hi, hk, hlt, hn]
      · by_cases hi : i = k
        · subst hi; simp [alterAt, find, hk, hlt, ih]
        · simp [alterAt, find, hk, hlt, ih, hi]

end Raw

variable {κ ν μ : Type} [LT κ]

def empty : SortedMap κ ν := ⟨[], List.Pairwise.nil⟩

instance : Inhabited (SortedMap κ ν) := ⟨empty⟩
instance : EmptyCollection (SortedMap κ ν) := ⟨empty⟩

instance [DecidableEq κ] [DecidableEq ν] : DecidableEq (SortedMap κ ν) := fun a b =>
  if h : a.entries = b.entries then
    isTrue (by cases a; cases b; simp_all)
  else isFalse (fun e => h (e ▸ rfl))

def keys (m : SortedMap κ ν) : List κ := m.entries.map (·.1)

def values (m : SortedMap κ ν) : List ν := m.entries.map (·.2)

def size (m : SortedMap κ ν) : Nat := m.entries.length

def isEmpty (m : SortedMap κ ν) : Bool := m.entries.isEmpty

def filter (p : κ → ν → Bool) (m : SortedMap κ ν) : SortedMap κ ν :=
  ⟨m.entries.filter (fun e => p e.1 e.2), m.sorted.sublist List.filter_sublist⟩

def mapValues (f : κ → ν → μ) (m : SortedMap κ ν) : SortedMap κ μ :=
  ⟨m.entries.map (fun e => (e.1, f e.1 e.2)), List.pairwise_map.2 m.sorted⟩

section LookUp
variable [DecidableEq κ]

def get? (m : SortedMap κ ν) (k : κ) : Option ν := find k m.entries

def erase (m : SortedMap κ ν) (k : κ) : SortedMap κ ν := m.filter fun j _ => j ≠ k

def contains (m : SortedMap κ ν) (k : κ) : Bool := (m.get? k).isSome

@[simp] theorem get?_empty (k : κ) : (empty : SortedMap κ ν).get? k = none := rfl

theorem find_eq_some_iff [KeyOrder κ]
    {l : List (κ × ν)} (h : l.Pairwise (fun a b => a.1 < b.1)) {k : κ} {v : ν} :
    find k l = some v ↔ (k, v) ∈ l := by
  induction l with
  | nil => simp [find]
  | cons a r ih =>
    obtain ⟨j, w⟩ := a
    have hj := (List.pairwise_cons.1 h).1
    have hr := (List.pairwise_cons.1 h).2
    by_cases hk : k = j
    · subst hk
      simp only [find, if_true, Option.some.injEq, List.mem_cons, Prod.mk.injEq, true_and]
      constructor
      · intro e; exact Or.inl e.symm
      · rintro (e | e)
        · exact e.symm
        · exact absurd (hj _ e) (KeyOrder.irrefl k)
    · simp [find, hk, ih hr]

theorem get?_eq_some_iff [KeyOrder κ] {m : SortedMap κ ν} {k : κ} {v : ν} :
    m.get? k = some v ↔ (k, v) ∈ m.entries :=
  find_eq_some_iff m.sorted

theorem isEmpty_iff {m : SortedMap κ ν} : m.isEmpty = true ↔ ∀ k, m.get? k = none := by
  obtain ⟨l, hl⟩ := m
  cases l with
  | nil => simp [isEmpty, get?, find]
  | cons a r =>
    constructor
    · intro h; cases h
    · intro h; have ha := h a.1; simp [get?, find] at ha

theorem ext_get? [KeyOrder κ]
    {m n : SortedMap κ ν} (h : ∀ k, m.get? k = n.get? k) : m = n := by
  obtain ⟨l, hl⟩ := m
  obtain ⟨l', hl'⟩ := n
  have hmem : ∀ e : κ × ν, e ∈ l ↔ e ∈ l' := fun e => by
    rw [← find_eq_some_iff hl, ← find_eq_some_iff hl']
    exact iff_of_eq (congrArg (· = some e.2) (h e.1))
  suffices l = l' by subst this; rfl
  clear h
  induction l generalizing l' with
  | nil =>
    cases l' with
    | nil => rfl
    | cons a r => simpa using (hmem a).2 (by simp)
  | cons a r ih =>
    have ha := (List.pairwise_cons.1 hl).1
    cases l' with
    | nil => simpa using (hmem a).1 (by simp)
    | cons b s =>
      have hb := (List.pairwise_cons.1 hl').1
      have hab : a = b := by
        rcases List.mem_cons.1 ((hmem a).1 (by simp)) with e | e
        · exact e
        · rcases List.mem_cons.1 ((hmem b).2 (by simp)) with e' | e'
          · exact e'.symm
          · exact absurd (KeyOrder.trans (hb _ e) (ha _ e')) (KeyOrder.irrefl _)
      subst hab
      have := ih (List.pairwise_cons.1 hl).2 s (List.pairwise_cons.1 hl').2 (fun e => by
        constructor
        · intro he
          rcases List.mem_cons.1 ((hmem e).1 (by simp [he])) with rfl | h
          · exact absurd (ha _ he) (KeyOrder.irrefl _)
          · exact h
        · intro he
          rcases List.mem_cons.1 ((hmem e).2 (by simp [he])) with rfl | h
          · exact absurd (hb _ he) (KeyOrder.irrefl _)
          · exact h)
      rw [this]

/-- Maps with the same keys and the same values at them are the same map. -/
theorem ext_contains [KeyOrder κ] {m n : SortedMap κ ν}
    (hc : ∀ k, m.contains k = n.contains k)
    (hv : ∀ k v w, m.get? k = some v → n.get? k = some w → v = w) : m = n := by
  apply ext_get?
  intro k
  have hk := hc k
  unfold contains at hk
  cases hm : m.get? k with
  | none =>
    rw [hm] at hk
    exact (Option.isNone_iff_eq_none.1 (by simpa using hk.symm)).symm
  | some v =>
    rw [hm] at hk
    obtain ⟨w, hn⟩ := Option.isSome_iff_exists.1 hk.symm
    rw [hn, hv k v w hm hn]

@[simp] theorem get?_mapValues (m : SortedMap κ ν) (f : κ → ν → μ) (k : κ) :
    (m.mapValues f).get? k = (m.get? k).map (f k) := by
  obtain ⟨l, hl⟩ := m
  simp only [mapValues, get?]
  clear hl
  induction l with
  | nil => rfl
  | cons a r ih =>
    by_cases hk : k = a.1
    · simp [find, hk]
    · simp [find, hk, ih]

@[simp] theorem get?_filter [KeyOrder κ]
    (m : SortedMap κ ν) (p : κ → ν → Bool) (k : κ) :
    (m.filter p).get? k = (m.get? k).filter (p k) := by
  apply Option.ext
  intro v
  simp only [get?_eq_some_iff, Option.filter_eq_some_iff, filter, List.mem_filter]

theorem contains_filter [KeyOrder κ]
    (m : SortedMap κ ν) (p : κ → Bool) (k : κ) :
    (m.filter fun k _ => p k).contains k = (m.contains k && p k) := by
  cases h : m.get? k <;> simp [contains, h]

end LookUp

section Update
variable [DecidableEq κ] [DecidableLT κ] [KeyOrder κ]

def alter (m : SortedMap κ ν) (k : κ) (f : Option ν → ν) : SortedMap κ ν :=
  ⟨alterAt k f m.entries, sorted_alterAt k f m.sorted⟩

/-- The last value put at a key stays. -/
def insert (m : SortedMap κ ν) (k : κ) (v : ν) : SortedMap κ ν := m.alter k (fun _ => v)

def insertNew (m : SortedMap κ ν) (k : κ) (v : ν) : SortedMap κ ν := m.alter k (·.getD v)

/-- Of several values for one key the last stays. -/
def ofList (l : List (κ × ν)) : SortedMap κ ν := l.foldl (fun m e => m.insert e.1 e.2) empty

@[simp, grind =] theorem get?_alter (m : SortedMap κ ν) (k i : κ) (f : Option ν → ν) :
    (m.alter k f).get? i = if i = k then some (f (m.get? k)) else m.get? i :=
  find_alterAt k i f m.sorted

@[simp, grind =] theorem get?_insert (m : SortedMap κ ν) (k i : κ) (v : ν) :
    (m.insert k v).get? i = if i = k then some v else m.get? i := by
  simp [insert]

@[simp, grind =] theorem get?_insertNew (m : SortedMap κ ν) (k i : κ) (v : ν) :
    (m.insertNew k v).get? i = if i = k then some ((m.get? k).getD v) else m.get? i := by
  simp [insertNew]

end Update
end SortedMap

abbrev SortedSet (κ : Type) [LT κ] := SortedMap κ Unit

namespace SortedSet
variable {κ : Type} [LT κ] [DecidableEq κ] [DecidableLT κ] [KeyOrder κ]

def add (s : SortedSet κ) (k : κ) : SortedSet κ := SortedMap.insert s k ()

def ofList (l : List κ) : SortedSet κ := l.foldl add SortedMap.empty

def addAll (s : SortedSet κ) (l : List κ) : SortedSet κ := l.foldl add s

end SortedSet
end Triage
