import Mathlib
import Triage.Catalog.Table
import Triage.Proofs.Diagnostic.Records
import Triage.Proofs.SortedMap
import Triage.Proofs.Text.ByteOrder

set_option autoImplicit false

namespace Triage

theorem SortedMap.ofList_perm {κ ν : Type} [LT κ] [DecidableEq κ] [DecidableLT κ] [KeyOrder κ]
    {l l' : List (κ × ν)} (h : l'.Perm l) (hl : (l.map Prod.fst).Nodup) :
    ofList l' = ofList l := by
  have hl' : (l'.map Prod.fst).Nodup := (h.map Prod.fst).nodup_iff.2 hl
  apply ext_get?
  intro k
  apply Option.ext
  intro v
  rw [get?_ofList hl', get?_ofList hl, h.mem_iff]

namespace MessageTable
open Json Records

/-- An entry has a code: one field of that name, or one place, with the number in it. -/
structure Coded (j : Json) (c : Code) : Prop where
  shaped : Shaped 1 j
  code : Once SpellsWord (held "code".toList 0 j) c

/-- A member is about a message and its code. -/
structure Says (m : Text × Json) (e : Text × Code) : Prop where
  message : unescape m.1 = some e.1
  coded : Coded m.2 e.2

/-- The first, by their bytes, of the messages whose last member gives them a code. -/
def Least (members : List (Text × Code)) (c : Code) (message : Text) : Prop :=
  SortedMap.LastGives members message c ∧
    ∀ other, SortedMap.LastGives members other c → other ≠ message →
      Utf8.encode message < Utf8.encode other

theorem coded_iff {j : Json} {c : Code} : entryCode j = some c ↔ Coded j c := by
  have hcode {ss : List Slot} (h : slots ["code".toList] j = some ss) :
      ∃ s, ss = [s] ∧ Holds s (held "code".toList 0 j) := by
    have hs := holds_of_slots h
    simp only [List.mapIdx_cons, List.mapIdx_nil] at hs
    obtain _ | ⟨h₀, ⟨⟩⟩ := hs
    exact ⟨_, rfl, h₀⟩
  constructor
  · intro h
    simp only [entryCode, Option.bind_eq_bind, Option.bind_eq_some_iff] at h
    obtain ⟨ss, hs, h⟩ := h
    obtain ⟨s, rfl, hh⟩ := hcode hs
    exact ⟨shaped_of_slots hs, (required_iff word_iff hh).1 h⟩
  · intro h
    obtain ⟨ss, hs⟩ : ∃ ss, slots ["code".toList] j = some ss := by
      refine exists_slots h.shaped ?_
      simpa using h.code.length_le
    obtain ⟨s, rfl, hh⟩ := hcode hs
    simp only [entryCode, hs]
    exact (required_iff word_iff hh).2 h.code

theorem get?_ofMembers {l : List (Text × Code)} {c : Code} {m : Text} :
    (ofMembers l).get? c = some m ↔ Least l c m := by
  rw [ofMembers, SortedMap.get?_foldl_insertNew Prod.snd Prod.fst, SortedMap.get?_empty,
    Option.none_or, Option.map_eq_some_iff]
  have hm (e : Text × Code) :
      e ∈ (SortedMap.ofList l).entries ↔ SortedMap.LastGives l e.1 e.2 :=
    SortedMap.get?_eq_some_iff.symm.trans SortedMap.get?_ofList_iff
  simp only [SortedMap.find?_eq_some_iff_least (SortedMap.ofList l).sorted, hm, decide_eq_true_eq]
  constructor
  · rintro ⟨⟨m, c⟩, ⟨hl, rfl, hleast⟩, rfl⟩
    refine ⟨hl, fun other ho hne => Utf8.encode_lt ?_⟩
    exact KeyOrder.connected hne (hleast (other, c) ho rfl)
  · rintro ⟨hl, hleast⟩
    refine ⟨(m, c), ⟨hl, rfl, ?_⟩, rfl⟩
    rintro ⟨other, c'⟩ ho rfl hlt
    have hne : other ≠ m := by
      rintro rfl
      exact KeyOrder.irrefl _ hlt
    exact KeyOrder.irrefl other (KeyOrder.trans hlt (Utf8.encode_lt_iff.1 (hleast other ho hne)))

def member? (m : Text × Json) : Option (Text × Code) := do
  return ((← unescape m.1), (← entryCode m.2))

theorem read_eq {t : Text} {ms : List (Text × Json)} (ht : Json.read t = some (.object ms)) :
    read t = (ms.mapM member?).map ofMembers := by
  have hr : read t = (ms.mapM member?).bind fun members => some (ofMembers members) := by
    simp only [read, ht]
    rfl
  rw [hr]
  cases ms.mapM member? <;> rfl

theorem member?_iff {m : Text × Json} {e : Text × Code} : member? m = some e ↔ Says m e := by
  obtain ⟨message, c⟩ := e
  simp only [member?, Option.bind_eq_bind, Option.bind_eq_some_iff, Option.pure_def,
    Option.some.injEq, Prod.mk.injEq, coded_iff]
  constructor
  · rintro ⟨_, hm, _, hc, rfl, rfl⟩
    exact ⟨hm, hc⟩
  · rintro ⟨hm, hc⟩
    exact ⟨_, hm, _, hc, rfl, rfl⟩

section Documents
variable {t t' : Text} {ms ms' : List (Text × Json)} {members : List (Text × Code)}

theorem read_eq_ofMembers (ht : Json.read t = some (.object ms))
    (h : List.Forall₂ Says ms members) : read t = some (ofMembers members) := by
  have hm : ms.mapM member? = some members :=
    mapM_eq_some_iff.2 (h.imp fun _ _ => member?_iff.2)
  rw [read_eq ht, hm, Option.map_some]

theorem read_perm (ht : Json.read t = some (.object ms)) (h : List.Forall₂ Says ms members)
    (hn : (members.map Prod.fst).Nodup) (ht' : Json.read t' = some (.object ms'))
    (hp : ms'.Perm ms) : read t' = read t := by
  obtain ⟨members', h', hp'⟩ := List.perm_comp_forall₂ hp h
  rw [read_eq_ofMembers ht h, read_eq_ofMembers ht' h', ofMembers,
    SortedMap.ofList_perm hp' hn, ofMembers]

theorem read_uncoded (ht : Json.read t = some (.object ms)) (h : ∃ m ∈ ms, ∀ c, ¬ Coded m.2 c) :
    read t = none := by
  obtain ⟨m, hm, hc⟩ := h
  rw [read_eq ht, Option.map_eq_none_iff]
  cases hr : ms.mapM member? with
  | none => rfl
  | some members =>
    obtain ⟨e, he⟩ := Option.isSome_iff_exists.1 (mapM_isSome.1 ⟨members, hr⟩ m hm)
    exact absurd (member?_iff.1 he).coded (hc e.2)

/-- Where every member has a code, the table gives each code the least of the messages that end up
with it and knows no other code, whatever the order of members with different messages. Where one
has none there is no table, though a later member may be about the same message. -/
theorem read_members (ht : Json.read t = some (.object ms)) :
    (∀ members, List.Forall₂ Says ms members →
      (∃ table, read t = some table ∧ ∀ c m, table.get? c = some m ↔ Least members c m) ∧
      ((members.map Prod.fst).Nodup → ∀ t' ms', Json.read t' = some (.object ms') →
        ms'.Perm ms → read t' = read t)) ∧
    ((∃ m ∈ ms, ∀ c, ¬ Coded m.2 c) → read t = none) := by
  refine ⟨fun members h => ⟨?_, fun hn t' ms' ht' hp => read_perm ht h hn ht' hp⟩, read_uncoded ht⟩
  exact ⟨_, read_eq_ofMembers ht h, fun c m => get?_ofMembers⟩

/-- A message goes from one code to another, and two are left on the first. In a second document an
entry without a code is replaced in vain. -/
theorem read_members_moved :
    (∃ table, read "\x7b\"b\":\x7b\"code\":1\x7d,\"c\":[1],\"a\":\x7b\"x\":0,\"code\":1\x7d,
        \"b\":\x7b\"code\":2\x7d\x7d".toList = some table ∧
      table.get? 1 = some "a".toList ∧ table.get? 2 = some "b".toList) ∧
    read "\x7b\"b\":\x7b\x7d,\"b\":\x7b\"code\":2\x7d\x7d".toList = none := by
  let one := Json.object [("code".toList, ofNat 1)]
  let two := Json.object [("code".toList, ofNat 2)]
  constructor
  · have ht : Json.read "\x7b\"b\":\x7b\"code\":1\x7d,\"c\":[1],\"a\":\x7b\"x\":0,\"code\":1\x7d,
        \"b\":\x7b\"code\":2\x7d\x7d".toList = some (.object [("b".toList, one),
          ("c".toList, .array [ofNat 1]),
          ("a".toList, .object [("x".toList, ofNat 0), ("code".toList, ofNat 1)]),
          ("b".toList, two)]) := by cbv
    have hs : List.Forall₂ Says [("b".toList, one), ("c".toList, .array [ofNat 1]),
          ("a".toList, .object [("x".toList, ofNat 0), ("code".toList, ofNat 1)]),
          ("b".toList, two)]
        [("b".toList, 1), ("c".toList, 1), ("a".toList, 1), ("b".toList, 2)] :=
      .cons (member?_iff.1 (by decide)) (.cons (member?_iff.1 (by decide))
        (.cons (member?_iff.1 (by decide)) (.cons (member?_iff.1 (by decide)) .nil)))
    obtain ⟨table, hr, hg⟩ := ((read_members ht).1 _ hs).1
    refine ⟨table, hr, (hg 1 _).2 ⟨⟨[_, _], [_], rfl, by decide⟩, ?_⟩,
      (hg 2 _).2 ⟨⟨[_, _, _], [], rfl, by simp⟩, ?_⟩⟩
    · intro other ho hne
      have hm := ho.mem
      simp at hm
      rcases hm with rfl | rfl | rfl
      · exact Utf8.encode_lt (by decide)
      · exact Utf8.encode_lt (by decide)
      · exact absurd rfl hne
    · intro other ho hne
      have hm := ho.mem
      simp at hm
      exact absurd hm hne
  · have ht : Json.read "\x7b\"b\":\x7b\x7d,\"b\":\x7b\"code\":2\x7d\x7d".toList =
        some (.object [("b".toList, .object []), ("b".toList, two)]) := by cbv
    refine (read_members ht).2 ⟨("b".toList, .object []), by simp, fun c hc => ?_⟩
    have hn : entryCode (.object []) = none := by decide
    rw [coded_iff.2 hc] at hn
    cases hn

end Documents
end MessageTable
end Triage
