import Triage.Path

set_option autoImplicit false

/-!
The way back from a displayed path. What `displayed` writes is a relative path whose segments climb
out of the base and go down to the target; seen from the base again, it folds to the target's normal
form (`resolve_displayed`). So paths are displayed alike only if they have one normal form, and as a
rooted normal form can be parsed again, also always then (`displayed_faithful`).
-/

namespace Triage
namespace Path

def Plain (l : List Text) : Prop := ∀ s ∈ l, s ≠ [] ∧ s ≠ dot ∧ '/' ∉ s

def Settled (l : List Text) : Prop := ∀ s ∈ l.tail, s ≠ up

theorem plain_parse (t : Text) : Plain (parse t).segments := by
  intro s hs
  simp only [parse, List.mem_filter, decide_eq_true_eq] at hs
  exact ⟨hs.2.1, hs.2.2, Text.not_mem_of_mem_split hs.1⟩

theorem head?_join {l : List Text} (h : Plain l) : (Text.join ['/'] l).head? ≠ some '/' := by
  cases l with
  | nil => simp [Text.join]
  | cons s r =>
    obtain ⟨hne, _, hs⟩ := h s (by simp)
    cases s with
    | nil => exact absurd rfl hne
    | cons c s =>
      have hc : c ≠ '/' := fun e => hs (by simp [e])
      cases r <;> simpa [Text.join] using hc

theorem parse_join {l : List Text} (h : Plain l) : parse (Text.join ['/'] l) = ⟨false, l⟩ := by
  have hr : decide ((Text.join ['/'] l).head? = some '/') = false := by
    simpa using head?_join h
  cases l with
  | nil => rfl
  | cons s r =>
    have hs : Text.split '/' (Text.join ['/'] (s :: r)) = s :: r :=
      Text.split_join (by simp) fun p hp => (h p hp).2.2
    have hf : (s :: r).filter (fun s => s ≠ [] ∧ s ≠ dot) = s :: r :=
      List.filter_eq_self.2 fun p hp => by
        have hp := h p hp
        simp [hp]
    simp only [parse, hr, hs, hf]

theorem parse_render {p : Path} (hr : p.rooted = true) (h : Plain p.segments) :
    parse p.render = p := by
  obtain ⟨rooted, l⟩ := p
  subst hr
  calc parse (render ⟨true, l⟩)
      = ⟨true, (parse (Text.join ['/'] l)).segments⟩ := by simp [render, parse, Text.split]
    _ = ⟨true, l⟩ := by rw [parse_join h]

section Segments
variable {P : Text → Prop} (hu : P up)
include hu

theorem forall_foldl_stack {l before : List Text} (hl : ∀ s ∈ l, P s) (hb : ∀ s ∈ before, P s) :
    ∀ s ∈ l.foldl stack before, P s := by
  induction l generalizing before with
  | nil => exact hb
  | cons s l ih =>
    obtain ⟨hs, hl⟩ := List.forall_mem_cons.1 hl
    refine ih hl ?_
    unfold stack
    split
    · cases before with
      | nil => simpa using hu
      | cons a r => exact (List.forall_mem_cons.1 hb).2
    · exact List.forall_mem_cons.2 ⟨hs, hb⟩

theorem forall_fold {l : List Text} (h : ∀ s ∈ l, P s) : ∀ s ∈ fold l, P s := by
  intro s hs
  exact forall_foldl_stack hu h (List.forall_mem_nil _) s (by simpa [fold] using hs)

end Segments

theorem plain_fold {l : List Text} (h : Plain l) : Plain (fold l) := forall_fold (by decide) h

/-- On the stack a step up stands at the bottom or not at all: anything above it would have been
taken away in its place. -/
theorem settled_stack {before : List Text} (s : Text) (h : ∀ p ∈ before.dropLast, p ≠ up) :
    ∀ p ∈ (stack before s).dropLast, p ≠ up := by
  unfold stack
  split
  · cases before with
    | nil => simp
    | cons a r =>
      cases r with
      | nil => simp
      | cons b r => exact fun p hp => h p (by simp_all)
  · next hs =>
    cases before with
    | nil => simp
    | cons a r =>
      intro p hp
      rw [List.dropLast_cons_of_ne_nil (by simp)] at hp
      rcases List.mem_cons.1 hp with rfl | hp
      · exact hs
      · exact h p hp

theorem settled_foldl_stack (l : List Text) {before : List Text}
    (h : ∀ p ∈ before.dropLast, p ≠ up) : ∀ p ∈ (l.foldl stack before).dropLast, p ≠ up := by
  induction l generalizing before with
  | nil => exact h
  | cons s l ih => exact ih (settled_stack s h)

theorem settled_fold (l : List Text) : Settled (fold l) := by
  have hb : ∀ p ∈ ([] : List Text).dropLast, p ≠ up := by simp
  intro s hs
  exact settled_foldl_stack l hb s (by simpa [fold, List.tail_reverse] using hs)

theorem foldl_stack_down {l : List Text} (h : ∀ s ∈ l, s ≠ up) (before : List Text) :
    l.foldl stack before = l.reverse ++ before := by
  induction l generalizing before with
  | nil => rfl
  | cons s l ih =>
    have hs : s ≠ up := h s (by simp)
    rw [List.foldl_cons, ih fun p hp => h p (by simp [hp])]
    simp [stack, hs]

theorem foldl_stack_up (top before : List Text) :
    (List.replicate top.length up).foldl stack (top ++ before) = before := by
  induction top with
  | nil => rfl
  | cons s top ih => simpa [List.replicate_succ, stack] using ih

theorem dropCommon_eq (l m : List Text) :
    ∃ common, l = common ++ (dropCommon l m).1 ∧ m = common ++ (dropCommon l m).2 := by
  induction l generalizing m with
  | nil => exact ⟨[], by simp [dropCommon]⟩
  | cons a l ih =>
    cases m with
    | nil => exact ⟨[], by simp [dropCommon]⟩
    | cons b m =>
      by_cases hab : a = b
      · obtain ⟨common, hl, hm⟩ := ih m
        refine ⟨a :: common, ?_, ?_⟩
        · simpa [dropCommon, hab] using hl
        · simpa [dropCommon, hab] using hm
      · exact ⟨[], by simp [dropCommon, hab]⟩

/-- The way leads from the base to the target. Behind a common start no segment of the target is a
step up; without one, a step up can only be its first, which finds nothing to take away. -/
theorem foldl_stack_wayFrom {base target : List Text} (h : Settled target) :
    (wayFrom base target).foldl stack base.reverse = target.reverse := by
  obtain ⟨common, ht, hb⟩ := dropCommon_eq target base
  unfold wayFrom
  generalize dropCommon target base = rest at ht hb
  obtain ⟨down, out⟩ := rest
  simp only at ht hb
  have hup : (out.map fun _ => up).foldl stack base.reverse = common.reverse := by
    have hr := foldl_stack_up out.reverse common.reverse
    rw [hb, List.reverse_append, List.map_const']
    simpa using hr
  rw [List.foldl_append, hup, ht]
  cases common with
  | nil =>
    cases down with
    | nil => rfl
    | cons s down =>
      have hs : ∀ p ∈ down, p ≠ up := fun p hp => h p (by simp [ht, hp])
      have hfirst : stack [] s = [s] := by by_cases e : s = up <;> simp [stack, e]
      simp [hfirst, foldl_stack_down hs]
  | cons a common =>
    have hs : ∀ p ∈ down, p ≠ up := fun p hp => h p (by simp [ht, hp])
    simp [foldl_stack_down hs]

theorem fold_append (a b : List Text) :
    fold (a ++ b) = (b.foldl stack (fold a).reverse).reverse := by
  simp [fold]

theorem forall_wayFrom {P : Text → Prop} (hu : P up) (base : List Text) {target : List Text}
    (h : ∀ s ∈ target, P s) : ∀ s ∈ wayFrom base target, P s := by
  obtain ⟨common, ht, _⟩ := dropCommon_eq target base
  intro s hs
  rcases List.mem_append.1 hs with hs | hs
  · obtain ⟨_, _, rfl⟩ := List.mem_map.1 hs
    exact hu
  · exact h s (by rw [ht]; simp [hs])

theorem plain_wayFrom {base target : List Text} (h : Plain target) :
    Plain (wayFrom base target) := forall_wayFrom (by decide) base h

end Path

open Triage.Path

theorem parse_displayed {base t : Text} (hb : base.head? = some '/') (ht : t.head? = some '/') :
    Path.parse (displayed base t) =
      ⟨false, wayFrom (Path.parse base).normal.segments (Path.parse t).normal.segments⟩ := by
  have hp : Plain (wayFrom (Path.parse base).normal.segments (Path.parse t).normal.segments) :=
    plain_wayFrom (plain_fold (plain_parse t))
  have hr : ((Path.parse t).normal.rooted && (Path.parse base).normal.rooted) = true := by
    simp [Path.normal, Path.parse, hb, ht]
  simp only [displayed, hr, if_true]
  cases hw : wayFrom (Path.parse base).normal.segments (Path.parse t).normal.segments with
  | nil => decide
  | cons s r =>
    rw [hw] at hp
    exact parse_join hp

theorem displayed_ne_nil {base t : Text} (hb : base.head? = some '/') (ht : t.head? = some '/') :
    displayed base t ≠ [] := by
  intro he
  have hp := parse_displayed hb ht
  rw [he] at hp
  have hw : wayFrom (Path.parse base).normal.segments (Path.parse t).normal.segments = [] :=
    (congrArg Path.segments hp).symm
  have hr : ((Path.parse t).normal.rooted && (Path.parse base).normal.rooted) = true := by
    simp [Path.normal, Path.parse, hb, ht]
  simp [displayed, hr, hw, dot] at he

theorem not_mem_displayed {c : Char} (hd : c ≠ '.') (hs : c ≠ '/') (base : Text) {t : Text}
    (h : c ∉ t) : c ∉ displayed base t := by
  have hup : c ∉ up := by simpa [up] using hd
  have hp : ∀ s ∈ (Path.parse t).segments, c ∉ s := fun s hs =>
    Text.not_mem_split h s (List.mem_filter.1 hs).1
  have hw := forall_wayFrom hup (Path.parse base).normal.segments (forall_fold hup hp)
  unfold displayed
  dsimp only
  split
  · split
    · simpa [dot] using hd
    · exact Text.not_mem_join (by simpa using hs) hw
  · exact h

/-- A displayed path, seen from the directory it was displayed for, is the file again. -/
theorem resolve_displayed {base t : Text} (hb : base.head? = some '/')
    (ht : t.head? = some '/') : resolve base (displayed base t) = normalized t := by
  have hs : Settled (fold (Path.parse t).segments) := settled_fold _
  have hrb : (Path.parse base).rooted = true := by simp [Path.parse, hb]
  have hrt : (Path.parse t).rooted = true := by simp [Path.parse, ht]
  have hfold : fold ((Path.parse base).segments ++
      wayFrom (fold (Path.parse base).segments) (fold (Path.parse t).segments)) =
      fold (Path.parse t).segments := by
    rw [fold_append, foldl_stack_wayFrom hs, List.reverse_reverse]
  rw [resolve, normalized, parse_displayed hb ht]
  simp only [Path.join, Path.normal, hrb, hrt, Bool.false_eq_true, if_false]
  rw [hfold]

theorem resolve_rooted (base : Text) {t : Text} (ht : t.head? = some '/') :
    resolve base t = normalized t := by
  simp [resolve, normalized, Path.join, Path.parse, ht]

theorem normalized_eq_iff {t u : Text} (ht : t.head? = some '/') (hu : u.head? = some '/') :
    normalized t = normalized u ↔ (Path.parse t).normal = (Path.parse u).normal := by
  have hback (s : Text) (hs : s.head? = some '/') :
      Path.parse (normalized s) = (Path.parse s).normal :=
    parse_render (by simp [Path.normal, Path.parse, hs]) (plain_fold (plain_parse s))
  constructor
  · intro h
    rw [← hback t ht, ← hback u hu, h]
  · intro h
    exact congrArg Path.render h

/-- However paths and base are spelled, a displayed path leads from the base to the normal form of
the path, and two paths are displayed alike exactly when they have one normal form. -/
theorem displayed_faithful {base t : Text} (hb : base.head? = some '/') (ht : t.head? = some '/') :
    resolve base (displayed base t) = normalized t ∧
      ∀ u : Text, u.head? = some '/' →
        (displayed base t = displayed base u ↔ normalized t = normalized u) := by
  refine ⟨resolve_displayed hb ht, fun u hu => ⟨fun h => ?_, fun h => ?_⟩⟩
  · rw [← resolve_displayed hb ht, h, resolve_displayed hb hu]
  · have hn := (normalized_eq_iff ht hu).1 h
    have hr : ((Path.parse u).normal.rooted && (Path.parse base).normal.rooted) = true := by
      simp [Path.normal, Path.parse, hb, hu]
    simp only [displayed, hn, hr, if_true]

/-- A path that climbs above the root is not displayed as the one that stays at it. -/
theorem displayed_faithful_above_root :
    let base := "/repo/./sub//dir/..".toList
    let t := "/repo//a/../../../x.ts".toList
    displayed base t = "../../../x.ts".toList ∧
      resolve base "../../../x.ts".toList = "/../x.ts".toList ∧
      displayed base t ≠ displayed base "/x.ts".toList := by
  intro base t
  have h := @displayed_faithful base t rfl rfl
  have hd : displayed base t = "../../../x.ts".toList := by decide
  have hn : normalized t = "/../x.ts".toList := by decide
  refine ⟨hd, ?_, fun he => ?_⟩
  · rw [← hd, h.1, hn]
  · exact absurd ((h.2 "/x.ts".toList rfl).1 he) (by decide)

end Triage
