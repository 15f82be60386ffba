import Triage.Proofs.Path.Climb

set_option autoImplicit false

/-!
What lies within a root. Between rooted paths without steps up it is the segments that decide: those
of the root have to be the first ones of the path. A displayed path sets out with a step up exactly
where they are not, and where they are the others lead from the root to the path, so the three ways
to tell what lies within a root agree (`isWithin_iff`).
-/

namespace Triage

namespace Text

theorem join_append (sep : Text) {a b : List Text} (ha : a ≠ []) (hb : b ≠ []) :
    join sep (a ++ b) = join sep a ++ sep ++ join sep b := by
  induction a with
  | nil => exact absurd rfl ha
  | cons t a ih =>
    cases a with
    | nil =>
      obtain ⟨u, b, rfl⟩ := List.exists_cons_of_ne_nil hb
      rfl
    | cons u a =>
      have ih := ih (List.cons_ne_nil u a)
      rw [List.cons_append] at ih ⊢
      simp [join, ih]

end Text

namespace Path

theorem dropCommon_snd_eq_nil_iff (target base : List Text) :
    (dropCommon target base).2 = [] ↔ base <+: target := by
  induction target generalizing base with
  | nil => cases base <;> simp [dropCommon]
  | cons a target ih =>
    cases base with
    | nil => simp [dropCommon]
    | cons b base =>
      by_cases hab : a = b
      · simp [dropCommon, hab, ih]
      · simp [dropCommon, hab, Ne.symm hab]

theorem head?_wayFrom {base target : List Text} (h : up ∉ target) :
    (wayFrom base target).head? ≠ some up ↔ base <+: target := by
  rw [← dropCommon_snd_eq_nil_iff]
  obtain ⟨common, ht, -⟩ := dropCommon_eq target base
  unfold wayFrom
  generalize dropCommon target base = rest at ht ⊢
  obtain ⟨down, out⟩ := rest
  cases out with
  | nil =>
    refine iff_of_true (fun hd => ?_) rfl
    exact h (ht ▸ List.mem_append_right common (List.mem_of_head? hd))
  | cons s out => simp

/-- A rooted path whose normal form has no step up. -/
structure Grounded (t : Text) : Prop where
  rooted : t.head? = some '/'
  no_up : up ∉ (parse (normalized t)).segments

end Path

open Triage.Path

section Containment
variable {root t : Text}

theorem normal_of_rooted (ht : t.head? = some '/') :
    (Path.parse t).normal = ⟨true, fold (Path.parse t).segments⟩ := by
  simp [normal, Path.parse, ht]

theorem rooted_normalized (ht : t.head? = some '/') :
    Path.parse (normalized t) = ⟨true, fold (Path.parse t).segments⟩ :=
  (parse_normalized t).trans (normal_of_rooted ht)

theorem normalized_of_rooted (ht : t.head? = some '/') :
    normalized t = '/' :: Text.join ['/'] (Path.parse (normalized t)).segments := by
  rw [rooted_normalized ht, normalized, normal_of_rooted ht]
  rfl

theorem isWithin_iff_segments (hr : root.head? = some '/') (ht : t.head? = some '/') :
    isWithin root t = true ↔
      (Path.parse (normalized root)).segments <+: (Path.parse (normalized t)).segments := by
  simp [isWithin, startsWith, parse_normalized, normal_of_rooted hr, normal_of_rooted ht]

theorem head?_split_displayed (hr : root.head? = some '/') (ht : t.head? = some '/') :
    (Text.split '/' (displayed root t)).head? = some up ↔
      (wayFrom (Path.parse (normalized root)).segments
        (Path.parse (normalized t)).segments).head? = some up := by
  have hplain : Plain (wayFrom (fold (Path.parse root).segments) (fold (Path.parse t).segments)) :=
    plain_wayFrom (plain_fold (plain_parse t))
  simp only [displayed, parse_normalized, normal_of_rooted hr, normal_of_rooted ht, Bool.and_self,
    if_true]
  split
  · next hw => simp [hw]; decide
  · next hw => rw [Text.split_join hw fun s hs => (hplain s hs).2.2]

theorem parse_resolve_down (hr : root.head? = some '/') {q : Text} (hq : q.head? ≠ some '/')
    (hup : up ∉ (Path.parse q).segments) :
    Path.parse (resolve root q) =
      ⟨true, (Path.parse (normalized root)).segments ++ (Path.parse q).segments⟩ := by
  have hrel : (Path.parse q).rooted = false := by simp [Path.parse, hq]
  have hroot : (Path.parse root).rooted = true := by simp [Path.parse, hr]
  rw [parse_resolve, normal_join _ hrel, rooted_normalized hr, hroot,
    foldl_stack_down fun s hs e => hup (e ▸ hs)]
  simp

theorem isWithin_iff_exists (hr : root.head? = some '/') (ht : Grounded t) :
    isWithin root t = true ↔ ∃ q : Text, q.head? ≠ some '/' ∧ up ∉ (Path.parse q).segments ∧
      resolve root q = normalized t := by
  rw [isWithin_iff_segments hr ht.rooted]
  constructor
  · rintro ⟨down, hdown⟩
    have hplain : Plain down := fun s hs =>
      plain_parse (normalized t) s (hdown ▸ List.mem_append_right _ hs)
    have hp : Path.parse (Text.join ['/'] down) = ⟨false, down⟩ := parse_join hplain
    have hup : up ∉ (Path.parse (Text.join ['/'] down)).segments := fun h =>
      ht.no_up (hdown ▸ List.mem_append_right _ (by simpa [hp] using h))
    refine ⟨Text.join ['/'] down, head?_join hplain, hup, ?_⟩
    have hres := parse_resolve_down hr (head?_join hplain) hup
    rw [hp, hdown, parse_resolve] at hres
    have hnorm : Path.parse (normalized t) =
        ⟨true, (Path.parse (normalized t)).segments⟩ := by rw [rooted_normalized ht.rooted]
    rw [resolve, hres, ← hnorm, parse_normalized, normalized]
  · rintro ⟨q, hq, hup, hres⟩
    rw [← hres, parse_resolve_down hr hq hup]
    exact List.prefix_append _ _

/-- A path within a root is the root or begins, as a text, with the root and a slash. -/
theorem normalized_of_isWithin (hr : root.head? = some '/') (ht : t.head? = some '/')
    (hroot : normalized root ≠ ['/']) (h : isWithin root t = true) :
    normalized t = normalized root ∨ ∃ s, normalized t = normalized root ++ '/' :: s := by
  obtain ⟨down, hdown⟩ := (isWithin_iff_segments hr ht).1 h
  have hne : (Path.parse (normalized root)).segments ≠ [] := by
    intro he
    have hslash := normalized_of_rooted hr
    rw [he] at hslash
    exact hroot hslash
  by_cases hd : down = []
  · left
    rw [normalized_of_rooted ht, normalized_of_rooted hr, ← hdown, hd, List.append_nil]
  · right
    refine ⟨Text.join ['/'] down, ?_⟩
    rw [normalized_of_rooted ht, normalized_of_rooted hr, ← hdown, Text.join_append ['/'] hne hd]
    simp

/-- A way that comes back to the root and does not lead out of it from there. -/
theorem isWithin_of_return (hr : root.head? = some '/') {u v : Text}
    (hu : normalized u = normalized root) (hv : (Path.parse v).climbs = 0) :
    isWithin root (u ++ '/' :: v) = true := by
  have hpu : (Path.parse u).normal = (Path.parse root).normal := by
    rw [← parse_normalized, ← parse_normalized, hu]
  have hrooted : (Path.parse u).rooted = true := by
    have h := congrArg Path.rooted hpu
    simpa [normal, Path.parse, hr] using h
  have hsegs : fold (Path.parse u).segments = fold (Path.parse root).segments :=
    congrArg Path.segments hpu
  have ht : (u ++ '/' :: v).head? = some '/' := by
    cases u with
    | nil => rfl
    | cons c u => simpa [Path.parse] using hrooted
  rw [isWithin_iff_segments hr ht, rooted_normalized hr, rooted_normalized ht, segments_slash,
    fold_append, hsegs, foldl_stack_eq]
  have hout : (walk (Path.parse v).segments).out = 0 := hv
  rw [hout]
  simp

end Containment

/-- A path lies within a root exactly where it is not displayed with a step up in front, and exactly
where a relative path without steps up leads to it. A name that carries on the root's is outside,
and what has been elsewhere and come back to the root is inside. -/
theorem isWithin_iff {root t : Text} (hr : Grounded root) (ht : Grounded t) :
    (isWithin root t = true ↔ (Text.split '/' (displayed root t)).head? ≠ some up) ∧
      (isWithin root t = true ↔ ∃ q : Text, q.head? ≠ some '/' ∧ up ∉ (Path.parse q).segments ∧
        resolve root q = normalized t) ∧
      (∀ c s, normalized root ≠ ['/'] → c ≠ '/' → normalized t = normalized root ++ c :: s →
        isWithin root t = false) ∧
      ∀ u v, normalized u = normalized root → (Path.parse v).climbs = 0 →
        isWithin root (u ++ '/' :: v) = true := by
  refine ⟨?_, isWithin_iff_exists hr.rooted ht, fun c s hroot hc h => ?_, fun u v =>
    isWithin_of_return hr.rooted⟩
  · rw [isWithin_iff_segments hr.rooted ht.rooted, ← head?_wayFrom ht.no_up, not_iff_not,
      head?_split_displayed hr.rooted ht.rooted]
  · rw [Bool.eq_false_iff]
    intro hw
    rcases normalized_of_isWithin hr.rooted ht.rooted hroot hw with he | ⟨s', he⟩
    · simp [he] at h
    · rw [he, List.append_cancel_left_eq] at h
      exact hc (List.cons.inj h).1.symm

/-- A root spelled with a way out and back, a sibling that carries on its name, and a path that
leaves the root for another and comes back. -/
theorem isWithin_iff_sibling :
    let root := "/repo/./x/..".toList
    let sibling := "/repo//..x/../../repository/a.ts".toList
    let u := "/repo/../other/../repo".toList
    let v := "src/../..a.ts".toList
    Grounded root ∧ Grounded sibling ∧ isWithin root sibling = false ∧
      (Text.split '/' (displayed root sibling)).head? = some up ∧
      isWithin root (u ++ '/' :: v) = true := by
  intro root sibling u v
  have hr : Grounded root := ⟨by decide, by decide⟩
  have hs : Grounded sibling := ⟨by decide, by decide⟩
  have h := isWithin_iff hr hs
  have hout : isWithin root sibling = false :=
    h.2.2.1 's' "itory/a.ts".toList (by decide) (by decide) (by decide)
  refine ⟨hr, hs, hout, ?_, h.2.2.2 u v (by decide) (by decide)⟩
  exact Classical.not_not.1 fun hne => Bool.eq_false_iff.1 hout (h.1.2 hne)

end Triage
