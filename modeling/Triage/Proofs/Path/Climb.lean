import Mathlib.Data.List.Induction
import Mathlib.Logic.Function.Iterate
import Triage.Proofs.Path.Spelling

set_option autoImplicit false

/-!
Steps up that nothing takes back. Segments lead out of a place by so many steps up and then down
again (`walk`), and on a stack they take away as many segments as there are steps up
(`foldl_stack_eq`). But a step up from the bottom of the stack is itself kept on it, and the next
one takes that away: of the steps out of a relative path, and of those above the root, only the
parity is left (`fold_eq`). So a path may be normalised first exactly when at most one step leads
out of it or the base has no room for more (`resolve_normalized_iff`), and a resolved path is fully
folded exactly when an even number of steps leads above the root (`resolve_folded_iff`).
-/

namespace Triage
namespace Path

/-- Where segments lead: so many steps up, then down, the nearest segment first. -/
structure Walk where
  out : Nat
  down : List Text

/-- A step up takes back a step down. Where there is none it leads out, and the way down stays
empty. -/
def Walk.step (w : Walk) (s : Text) : Walk :=
  if s = up then
    match w.down with
    | [] => ⟨w.out + 1, []⟩
    | _ :: r => ⟨w.out, r⟩
  else ⟨w.out, s :: w.down⟩

def walk (l : List Text) : Walk := l.foldl Walk.step ⟨0, []⟩

/-- Steps up that no segment before them takes back. -/
def climbs (p : Path) : Nat := (walk p.segments).out

/-- The segments below the highest place that is reached. -/
def descent (p : Path) : List Text := (walk p.segments).down.reverse

def climb (before : List Text) : List Text := stack before up

theorem walk_concat (l : List Text) (s : Text) : walk (l ++ [s]) = (walk l).step s := by
  simp [walk]

/-- A further segment does the same to the stack under a walk as to the walk. -/
theorem stack_walk (w : Walk) (before : List Text) (s : Text) :
    stack (w.down ++ climb^[w.out] before) s =
      (w.step s).down ++ climb^[(w.step s).out] before := by
  obtain ⟨out, down⟩ := w
  by_cases hs : s = up
  · subst hs
    cases down with
    | nil => simp [Walk.step, Function.iterate_succ_apply', climb]
    | cons a down => simp [Walk.step, stack]
  · simp [Walk.step, stack, hs]

/-- Whatever the segments set out from, they climb out of it and go down from where they are. -/
theorem foldl_stack_eq (l before : List Text) :
    l.foldl stack before = (walk l).down ++ climb^[(walk l).out] before := by
  induction l using List.reverseRecOn with
  | nil => rfl
  | append_singleton l s ih =>
    rw [List.foldl_append, List.foldl_cons, List.foldl_nil, ih, walk_concat, stack_walk]

theorem ne_up_of_mem_down {l : List Text} {s : Text} (h : s ∈ (walk l).down) : s ≠ up := by
  induction l using List.reverseRecOn with
  | nil => cases h
  | append_singleton l p ih =>
    rw [walk_concat] at h
    unfold Walk.step at h
    split at h
    · cases hd : (walk l).down with
      | nil => simp [hd] at h
      | cons a r =>
        rw [hd] at h ih
        exact ih (List.mem_cons_of_mem a h)
    · next hp =>
      rcases List.mem_cons.1 h with rfl | h
      · exact hp
      · exact ih h

section Climbing
variable (before : List Text) (n : Nat)

theorem climb_iterate_nil : climb^[n] [] = List.replicate (n % 2) up := by
  induction n with
  | zero => rfl
  | succ n ih =>
    rw [Function.iterate_succ_apply', ih]
    rcases Nat.mod_two_eq_zero_or_one n with h | h
    · have hn : (n + 1) % 2 = 1 := by omega
      rw [h, hn]
      rfl
    · have hn : (n + 1) % 2 = 0 := by omega
      rw [h, hn]
      rfl

theorem foldl_stack_replicate : (List.replicate n up).foldl stack before = climb^[n] before := by
  induction n generalizing before with
  | zero => rfl
  | succ n ih =>
    rw [List.replicate_succ, List.foldl_cons, ih, Function.iterate_succ_apply]
    rfl

theorem length_climb : (climb before).length ≤ max 1 (before.length - 1) := by
  cases before with
  | nil => exact Nat.le_refl 1
  | cons a r => exact Nat.le_max_right 1 r.length

theorem length_climb_iterate :
    (climb^[n + 1] before).length ≤ max 1 (before.length - 1) := by
  induction n with
  | zero => exact length_climb before
  | succ n ih =>
    have hc := length_climb (climb^[n + 1] before)
    rw [Function.iterate_succ_apply']
    omega

end Climbing

/-- An even number of steps up comes back to where it began only if it is none, or begins where
steps up go back and forth. -/
theorem climb_iterate_even (before : List Text) (n : Nat) :
    climb^[2 * n] before = before ↔ n = 0 ∨ before = [] ∨ before = [up] := by
  constructor
  · intro h
    by_cases hn : n = 0
    · exact .inl hn
    obtain ⟨k, hk⟩ : ∃ k, 2 * n = k + 1 := ⟨2 * n - 1, by omega⟩
    rw [hk] at h
    match before, h with
    | [], _ => exact .inr (.inl rfl)
    | [a], h =>
      -- the first step empties the stack, and of the odd number behind it one is kept
      have hc : climb [a] = [] := rfl
      have hodd : k % 2 = 1 := by omega
      rw [Function.iterate_succ_apply, hc, climb_iterate_nil, hodd] at h
      exact .inr (.inr h.symm)
    | a :: b :: r, h =>
      -- a longer stack does not get its length back
      have hl := length_climb_iterate (a :: b :: r) k
      rw [h] at hl
      simp only [List.length_cons] at hl
      omega
  · rw [Function.iterate_mul]
    rintro (rfl | rfl | rfl)
    · rfl
    · exact Function.iterate_fixed rfl n
    · exact Function.iterate_fixed rfl n

theorem climb_iterate_parity (before : List Text) (n : Nat) :
    climb^[n % 2] before = climb^[n] before ↔
      n ≤ 1 ∨ climb^[n % 2] before = [] ∨ climb^[n % 2] before = [up] := by
  have hn : climb^[n] before = climb^[2 * (n / 2)] (climb^[n % 2] before) := by
    rw [← Function.iterate_add_apply, Nat.div_add_mod]
  have hle : n / 2 = 0 ↔ n ≤ 1 := by omega
  rw [hn, eq_comm, climb_iterate_even, hle]

theorem fold_eq (p : Path) : fold p.segments = List.replicate (p.climbs % 2) up ++ p.descent := by
  rw [fold, foldl_stack_eq, climb_iterate_nil, List.reverse_append, List.reverse_replicate]
  rfl

theorem ne_up_of_mem_descent {p : Path} {s : Text} (h : s ∈ p.descent) : s ≠ up :=
  ne_up_of_mem_down (List.mem_reverse.1 h)

theorem plain_descent {p : Path} (h : Plain p.segments) : Plain p.descent := by
  intro s hs
  refine plain_fold h s ?_
  rw [fold_eq]
  exact List.mem_append_right _ hs

theorem foldl_stack_fold (p : Path) (before : List Text) :
    (fold p.segments).foldl stack before = p.descent.reverse ++ climb^[p.climbs % 2] before := by
  rw [fold_eq, List.foldl_append, foldl_stack_replicate,
    foldl_stack_down fun s hs => ne_up_of_mem_descent hs]

theorem plain_join {p q : Path} (hp : Plain p.segments) (hq : Plain q.segments) :
    Plain (p.join q).segments := by
  unfold join
  split
  · exact hq
  · intro s hs
    exact (List.mem_append.1 hs).elim (hp s) (hq s)

theorem normal_join (base : Path) {p : Path} (h : p.rooted = false) :
    (base.join p).normal =
      ⟨base.rooted, (p.segments.foldl stack (fold base.segments).reverse).reverse⟩ := by
  simp only [join, h, Bool.false_eq_true, if_false, normal, fold_append]

theorem normal_join_normal (base : Path) {p : Path} (h : p.rooted = false) :
    (base.join p.normal).normal = (base.join p).normal ↔
      climb^[p.climbs % 2] (fold base.segments).reverse =
        climb^[p.climbs] (fold base.segments).reverse := by
  have hp : p.normal.rooted = false := h
  have hfold := foldl_stack_fold p (fold base.segments).reverse
  have hall := foldl_stack_eq p.segments (fold base.segments).reverse
  rw [normal_join base hp, normal_join base h, normal, hfold, hall, descent, List.reverse_reverse]
  simp [climbs]

def Topmost (p : Path) : Prop := p.segments = [] ∨ p.segments = [up]

theorem topmost_parity (base : Path) (n : Nat) :
    Topmost (base.join (if n % 2 = 0 then parse dot else parse up)).normal ↔
      climb^[n % 2] (fold base.segments).reverse = [] ∨
        climb^[n % 2] (fold base.segments).reverse = [up] := by
  have hdot : parse dot = ⟨false, []⟩ := rfl
  have hup : parse up = ⟨false, [up]⟩ := rfl
  unfold Topmost
  rcases Nat.mod_two_eq_zero_or_one n with h | h
  · rw [h, if_pos rfl, hdot, normal_join base rfl]
    simp [List.reverse_eq_iff]
  · rw [h, if_neg (by decide), hup, normal_join base rfl]
    simp [climb, List.reverse_eq_iff]

/-- A rooted spelling with nothing in it to fold: no segment is empty, `.` or `..`, and only the
root ends in a slash. -/
def Folded (key : Text) : Prop :=
  ∃ rest, key = '/' :: rest ∧ (rest = [] ∨ ∀ s ∈ Text.split '/' rest, Ordinary s)

/-- A rooted spelling is fully folded unless one of its segments is a step up. -/
theorem folded_render_iff {l : List Text} (h : Plain l) : Folded (render ⟨true, l⟩) ↔ up ∉ l := by
  have hr : render ⟨true, l⟩ = '/' :: Text.join ['/'] l := rfl
  rw [hr]
  cases l with
  | nil => simp [Folded, Text.join]
  | cons a l =>
    have hs : Text.split '/' (Text.join ['/'] (a :: l)) = a :: l :=
      Text.split_join (by simp) fun s hs => (h s hs).2.2
    have hne : Text.join ['/'] (a :: l) ≠ [] := by
      intro he
      rw [he] at hs
      obtain ⟨rfl, -⟩ := List.cons.inj hs
      exact (h [] (by simp)).1 rfl
    constructor
    · rintro ⟨rest, hrest, hall⟩ hup
      obtain rfl := (List.cons.inj hrest).2
      rw [hs] at hall
      exact (hall.resolve_left hne up hup).ne_up rfl
    · intro hup
      refine ⟨_, rfl, .inr fun s hm => ?_⟩
      rw [hs] at hm
      exact ⟨(h s hm).1, (h s hm).2.1, fun e => hup (e ▸ hm), (h s hm).2.2⟩

end Path

open Triage.Path

theorem parse_resolve (base t : Text) :
    Path.parse (resolve base t) = ((Path.parse base).join (Path.parse t)).normal :=
  parse_render_of_plain (plain_fold (plain_join (plain_parse base) (plain_parse t)))

theorem resolve_eq_iff {base t u : Text} : resolve base t = resolve base u ↔
    ((Path.parse base).join (Path.parse t)).normal =
      ((Path.parse base).join (Path.parse u)).normal := by
  constructor
  · intro h
    rw [← parse_resolve, ← parse_resolve, h]
  · intro h
    rw [resolve, resolve, h]

/-- A normal form has all segments that lead down, and a step up if an odd number leads out. It can
be resolved in place of its path exactly when no step up is lost: at most one leads out, or at the
base, or one step above it, there is nothing more to take away. -/
theorem resolve_normalized_iff (base t : Text) :
    Path.parse (normalized t) = ⟨(Path.parse t).rooted,
        List.replicate ((Path.parse t).climbs % 2) up ++ (Path.parse t).descent⟩ ∧
      (resolve base (normalized t) = resolve base t ↔
        (Path.parse t).rooted = true ∨ (Path.parse t).climbs ≤ 1 ∨
          Topmost (Path.parse
            (resolve base (if (Path.parse t).climbs % 2 = 0 then dot else up)))) := by
  have hn := parse_normalized t
  refine ⟨by rw [hn, normal, fold_eq], ?_⟩
  rw [resolve_eq_iff, hn]
  cases hr : (Path.parse t).rooted with
  | true =>
    have hfold := fold_of_settled (settled_fold (Path.parse t).segments)
    simp [join, normal, hr, hfold]
  | false =>
    rw [normal_join_normal _ hr, climb_iterate_parity, parse_resolve, apply_ite Path.parse,
      topmost_parity]
    simp

/-- Of two steps out of a path neither is left, and its normal form stays below the base. -/
theorem resolve_normalized_two_up :
    let base := "/repo/sub".toList
    let t := "../../a.ts".toList
    normalized t = "a.ts".toList ∧ resolve base (normalized t) = "/repo/sub/a.ts".toList ∧
      resolve base t = "/a.ts".toList ∧ resolve base (normalized t) ≠ resolve base t := by
  decide

/-- What is resolved against a rooted base has the segments that are left where steps up at the
root stay at it. It is fully folded exactly when the number of those steps is even; else one of them
is kept in front. -/
theorem resolve_folded_iff {base t : Text} (hb : base.head? = some '/') :
    let p := (Path.parse base).join (Path.parse t)
    Folded (render ⟨true, p.descent⟩) ∧
      resolve base t =
        render ⟨true, if p.climbs % 2 = 0 then p.descent else up :: p.descent⟩ ∧
      (Folded (resolve base t) ↔ p.climbs % 2 = 0) := by
  intro p
  have hp : p.normal.rooted = true := by
    have hrb : (Path.parse base).rooted = true := by simp [Path.parse, hb]
    simp only [p, normal, join]
    split <;> assumption
  have hplain : Plain p.segments := plain_join (plain_parse base) (plain_parse t)
  have hdescent : up ∉ p.descent := fun h => ne_up_of_mem_descent h rfl
  have hr : resolve base t =
      render ⟨true, if p.climbs % 2 = 0 then p.descent else up :: p.descent⟩ := by
    have hn : p.normal = ⟨true, fold p.segments⟩ := by rw [← hp]; rfl
    rw [resolve, hn, fold_eq]
    rcases Nat.mod_two_eq_zero_or_one p.climbs with h | h <;> rw [h] <;> rfl
  have hfolded : Folded (render ⟨true, p.descent⟩) :=
    (folded_render_iff (plain_descent hplain)).2 hdescent
  refine ⟨hfolded, hr, ?_⟩
  rw [hr]
  split
  · next h => exact iff_of_true hfolded h
  · next h =>
    have hup : Plain (up :: p.descent) := by
      intro s hs
      rcases List.mem_cons.1 hs with rfl | hs
      · decide
      · exact plain_descent hplain s hs
    exact iff_of_false (fun hf => (folded_render_iff hup).1 hf (by simp)) h

/-- From two steps above the root the path comes down again where it should. -/
theorem resolve_folded_two_above :
    resolve "/repo".toList "../../../x/../a.ts".toList = "/a.ts".toList ∧
      Folded (resolve "/repo".toList "../../../x/../a.ts".toList) := by
  have h := @resolve_folded_iff "/repo".toList "../../../x/../a.ts".toList rfl
  exact ⟨by decide, h.2.2.2 (by decide)⟩

/-- From one step above the root it does not. -/
theorem resolve_one_above :
    resolve "/repo".toList "../../a.ts".toList = "/../a.ts".toList ∧
      ¬ Folded (resolve "/repo".toList "../../a.ts".toList) := by
  have hr : resolve "/repo".toList "../../a.ts".toList = "/../a.ts".toList := by decide
  have hp : "/../a.ts".toList = render ⟨true, [up, "a.ts".toList]⟩ := by decide
  have hplain : Plain [up, "a.ts".toList] := by
    unfold Plain
    decide
  rw [hr]
  refine ⟨rfl, ?_⟩
  rw [hp, folded_render_iff hplain]
  decide

end Triage
