import Triage.Proofs.Json.Reader
import Triage.Proofs.SortedMap

set_option autoImplicit false

namespace Triage.Json

/-- A value whose document can be read once it is written, and is decoded to the value. -/
structure Restores {α : Type} (d : Decoder α) (f : α → Json) (a : α) : Prop where
  spelt : (f a).Spelt
  decode : d (f a) = some a

theorem Restores.read {α : Type} {d : Decoder α} {f : α → Json} {a : α} (h : Restores d f a)
    {l : Layout} (hl : l.Blank) (depth : Nat) : (read ((f a).write l depth)).bind d = some a := by
  have hr := read_write hl h.spelt depth (g := []) rfl
  rw [List.append_nil] at hr
  rw [hr]
  exact h.decode

section Numbers

theorem plainNat?_ofNat (n : Nat) : plainNat? (Text.ofNat n) = some n := by
  by_cases hn : n = 0
  · subst hn
    rfl
  · rw [plainNat?, if_neg fun h => Text.head?_ofNat hn h.1, Text.toNat?_ofNat]

theorem plainNat?_eq_some_iff {s : Text} {n : Nat} : plainNat? s = some n ↔ s = Text.ofNat n := by
  refine ⟨fun h => ?_, fun h => h ▸ plainNat?_ofNat n⟩
  unfold plainNat? at h
  split at h
  · cases h
  · next hz =>
    unfold Text.toNat? at h
    split at h
    · cases h
    · next hne =>
      split at h
      · next hd =>
        have hn := Option.some.inj h
        by_cases hs : s = ['0']
        · subst hs hn
          rfl
        · rw [← hn]
          exact Text.eq_ofNat hne (List.all_eq_true.1 hd) fun hh => hz ⟨hh, hs⟩
      · cases h

theorem plainWord?_ofNat (w : UInt32) : plainWord? (Text.ofNat w.toNat) = some w := by
  have hw : w.toNat < UInt32.size := w.toNat_lt_size
  simp only [plainWord?, plainNat?_ofNat, if_pos hw, UInt32.ofNat_toNat]

theorem plainWord?_eq_some_iff {s : Text} {w : UInt32} :
    plainWord? s = some w ↔ s = Text.ofNat w.toNat := by
  refine ⟨fun h => ?_, fun h => h ▸ plainWord?_ofNat w⟩
  unfold plainWord? at h
  cases hn : plainNat? s with
  | none => simp [hn] at h
  | some n =>
    obtain rfl := plainNat?_eq_some_iff.1 hn
    simp only [hn] at h
    split at h
    · next hlt =>
      obtain rfl := Option.some.inj h
      rw [UInt32.toNat_ofNat_of_lt' hlt]
    · cases h

theorem escape_ofNat (n : Nat) : escape (Text.ofNat n) = Text.ofNat n := by
  apply escape_of_plain
  intro d hd
  have h := Text.isDigit_of_mem_ofNat hd
  have hn : 0x30 ≤ d.toNat := by
    simp only [Text.isDigit, Bool.and_eq_true, decide_eq_true_eq] at h
    exact h.1
  refine ⟨?_, ?_, by omega⟩
  · rintro rfl
    exact absurd h (by decide)
  · rintro rfl
    exact absurd h (by decide)

theorem restores_word (w : UInt32) : Restores word (fun n => ofNat n.toNat) w :=
  ⟨.number _, plainWord?_ofNat w⟩

theorem restores_count (n : Nat) : Restores count ofNat n := ⟨.number n, plainNat?_ofNat n⟩

theorem restores_natural {n : Nat} (h : n < UInt64.size) : Restores natural ofNat n := by
  refine ⟨.number n, ?_⟩
  simp only [ofNat, natural, plainNat?_ofNat, if_pos h]

end Numbers

theorem restores_text (t : Text) : Restores text ofText t := ⟨.string t, unescape_escape t⟩

theorem restores_flag (b : Bool) : Restores flag .bool b := ⟨.bool b, rfl⟩

theorem restores_oneOf {α : Type} {ofWord? : Text → Option α} {word : α → Text}
    (h : ∀ a, ofWord? (word a) = some a) (a : α) :
    Restores (oneOf ofWord?) (fun a => ofText (word a)) a := by
  refine ⟨.string (word a), ?_⟩
  simp only [ofText, oneOf, unescape_escape, Option.bind_some, h]

section Collections
variable {α κ ν : Type}

theorem mapM_map {β γ : Type} {f : α → β} {g : β → Option γ} {k : α → γ} {xs : List α}
    (h : ∀ x ∈ xs, g (f x) = some (k x)) : (xs.map f).mapM g = some (xs.map k) := by
  induction xs with
  | nil => rfl
  | cons x xs ih =>
    have hx := h x (by simp)
    have hr := ih fun y hy => h y (by simp [hy])
    simp [hx, hr]

theorem restores_list {d : Decoder α} {f : α → Json} {xs : List α} (h : ∀ x ∈ xs, Restores d f x) :
    Restores (list d) (fun xs => .array (xs.map f)) xs where
  spelt := .array fun j hj => by
    obtain ⟨x, hx, rfl⟩ := List.mem_map.1 hj
    exact (h x hx).spelt
  decode := (mapM_map fun x hx => (h x hx).decode).trans (by rw [List.map_id'])

theorem restores_map [LT κ] [DecidableEq κ] [DecidableLT κ] [KeyOrder κ] {key : Text → Option κ}
    {spell : κ → Text} {d : Decoder ν} {f : ν → Json} {m : SortedMap κ ν}
    (hs : ∀ k, ∃ t, spell k = escape t) (hk : ∀ k, key (spell k) = some k)
    (h : ∀ v ∈ m.values, Restores d f v) : Restores (map key d) (ofMap spell f) m where
  spelt := by
    refine .object ?_ ?_
    · intro j hj
      obtain ⟨e, -, rfl⟩ := List.mem_map.1 hj
      exact hs e.1
    · intro j hj
      obtain ⟨e, he, rfl⟩ := List.mem_map.1 hj
      exact (h e.2 (List.mem_map_of_mem he)).spelt
  decode := by
    have hm : (m.entries.map fun e => (spell e.1, f e.2)).mapM
        (fun e => do return ((← key e.1), (← d e.2))) = some (m.entries.map id) := by
      apply mapM_map
      intro e he
      have hv := (h e.2 (List.mem_map_of_mem he)).decode
      simp [hk, hv]
    simp only [map, ofMap, hm, List.map_id]
    exact congrArg some (SortedMap.ofList_of_perm (.refl _))

end Collections

section Fields

theorem required_given {α : Type} (d : Decoder α) (j : Json) :
    (Slot.given j).required d = d j := rfl

theorem optional_given {α : Type} (d : Decoder α) {j : Json} (h : j ≠ .null) :
    (Slot.given j).optional d = (d j).map some := by
  cases j with
  | null => exact absurd rfl h
  | _ => rfl

theorem restores_option {α : Type} {d : Decoder α} {f : α → Json} (h : ∀ a, Restores d f a)
    (hn : ∀ a, f a ≠ .null) (o : Option α) :
    Restores (fun j => (Slot.given j).optional d) (ofOption f) o := by
  cases o with
  | none => exact ⟨.null, rfl⟩
  | some a =>
    refine ⟨(h a).spelt, ?_⟩
    rw [ofOption, optional_given d (hn a), (h a).decode]
    rfl

theorem Spelt.record {fields : List (String × Json)} (h : ∀ f ∈ fields, f.2.Spelt) :
    (record fields).Spelt := by
  refine .object ?_ ?_
  · intro m hm
    obtain ⟨f, -, rfl⟩ := List.mem_map.1 hm
    exact ⟨_, rfl⟩
  · intro m hm
    obtain ⟨f, hf, rfl⟩ := List.mem_map.1 hm
    exact h f hf

theorem filter_key {κ ν : Type} [DecidableEq κ] {l : List (κ × ν)} (h : (l.map Prod.fst).Nodup)
    {e : κ × ν} (he : e ∈ l) : l.filter (·.1 = e.1) = [e] := by
  induction l with
  | nil => cases he
  | cons a l ih =>
    obtain ⟨ha, hl⟩ := List.nodup_cons.1 h
    rcases List.mem_cons.1 he with rfl | he
    · have hn : l.filter (·.1 = e.1) = [] := by
        rw [List.filter_eq_nil_iff]
        intro b hb hk
        exact ha (List.mem_map.2 ⟨b, hb, by simpa using hk⟩)
      simp [hn]
    · have hne : a.1 ≠ e.1 := fun hk => ha (List.mem_map.2 ⟨e, he, hk.symm⟩)
      simp [hne, ih hl he]

theorem slots_record {fields asked : List (String × Json)} (h : (fields.map Prod.fst).Nodup)
    (hs : ∀ f ∈ asked, f ∈ fields) :
    slots (asked.map fun f => f.1.toList) (record fields) =
      some (asked.map fun f => .given f.2) := by
  let named := fields.map fun f => (f.1.toList, f.2)
  have hm : (fields.map fun f => (escape f.1.toList, f.2)).mapM
      (fun m => (unescape m.1).map (·, m.2)) = some named := by
    apply mapM_map
    intro f _
    simp [unescape_escape]
  have hk : (named.map Prod.fst).Nodup := by
    have hn := h.map (f := String.toList) fun _ _ => String.toList_inj.1
    simpa [named, Function.comp_def] using hn
  simp only [slots, record, hm]
  apply mapM_map
  intro f hf
  have hj : (f.1.toList, f.2) ∈ named := List.mem_map.2 ⟨f, hs f hf, rfl⟩
  simp only [filter_key hk hj]

end Fields
end Triage.Json
