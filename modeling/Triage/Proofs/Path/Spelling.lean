import Triage.Proofs.Path.Display

set_option autoImplicit false

/-!
Spellings of one path. A spelling tells its root mark and its segments, and a text cut between two
segments has those of both parts (`segments_append`). So a slash too many, a `.`, or a way into a
directory and out again, put in at any cut, makes no other file of a path (`resolve_spellings`).
-/

namespace Triage
namespace Path

structure Ordinary (s : Text) : Prop where
  ne_nil : s ≠ []
  ne_dot : s ≠ dot
  ne_up : s ≠ up
  slash : '/' ∉ s

/-- A cut between two segments: at an end of the text or beside a slash. -/
def Cut (u v : Text) : Prop :=
  u = [] ∨ v = [] ∨ u.getLast? = some '/' ∨ v.head? = some '/'

/-- The part before a cut as it stands in front of a further segment. -/
def closed (u : Text) : Text := if u = [] ∨ u.getLast? = some '/' then u else u ++ ['/']

def opened (v : Text) : Text := if v = [] ∨ v.head? = some '/' then v else '/' :: v

/-- Segments that lead back to where they set out. -/
inductive Detour : Text → Prop
  | stay : Detour dot
  | back {s : Text} (h : Ordinary s) : Detour (s ++ '/' :: up)

/-- A path and the same with something put in between two segments. A slash does not go in front of
everything, where it would make a rooted path of a relative one, and nothing goes in front of the
slash of a rooted path. -/
inductive Respelt : Text → Text → Prop
  | slash {u v : Text} (hu : u ≠ []) (h : Cut u v) : Respelt (u ++ v) (u ++ '/' :: v)
  | detour {u s v : Text} (hs : Detour s) (h : Cut u v) (hu : u = [] → v.head? ≠ some '/') :
    Respelt (u ++ v) (closed u ++ s ++ opened v)

theorem segments_slash (u v : Text) :
    (parse (u ++ '/' :: v)).segments = (parse u).segments ++ (parse v).segments := by
  simp only [parse, Text.split_append, List.filter_append]

theorem segments_nil : (parse []).segments = [] := rfl

theorem segments_append {u v : Text} (h : Cut u v) :
    (parse (u ++ v)).segments = (parse u).segments ++ (parse v).segments := by
  rcases h with rfl | rfl | h | h
  · rfl
  · rw [List.append_nil, segments_nil, List.append_nil]
  · obtain ⟨u, rfl⟩ := List.getLast?_eq_some_iff.1 h
    have hu := segments_slash u []
    rw [segments_nil, List.append_nil] at hu
    rw [List.append_assoc, List.singleton_append, segments_slash, hu]
  · obtain ⟨v, rfl⟩ := List.head?_eq_some_iff.1 h
    have hv := segments_slash [] v
    rw [segments_nil, List.nil_append, List.nil_append] at hv
    rw [segments_slash, hv]

theorem cut_closed (u v : Text) : Cut (closed u) v := by
  unfold closed
  split
  · next h => exact h.elim .inl fun h => .inr (.inr (.inl h))
  · exact .inr (.inr (.inl (by simp)))

theorem cut_opened (u v : Text) : Cut u (opened v) := by
  unfold opened
  split
  · next h => exact h.elim (fun h => .inr (.inl h)) fun h => .inr (.inr (.inr h))
  · exact .inr (.inr (.inr rfl))

theorem segments_closed (u : Text) : (parse (closed u)).segments = (parse u).segments := by
  unfold closed
  split
  · rfl
  · rw [segments_slash, segments_nil, List.append_nil]

theorem segments_opened (v : Text) : (parse (opened v)).segments = (parse v).segments := by
  unfold opened
  split
  · rfl
  · exact segments_slash [] v

theorem segments_ordinary {s : Text} (h : Ordinary s) : (parse s).segments = [s] := by
  simp [parse, Text.split_of_not_mem h.slash, h.ne_nil, h.ne_dot]

theorem foldl_stack_detour {s : Text} (h : Detour s) (before : List Text) :
    (parse s).segments.foldl stack before = before := by
  cases h with
  | stay => rfl
  | back h =>
    have hup : (parse up).segments = [up] := rfl
    rw [segments_slash, segments_ordinary h, hup]
    simp [stack, h.ne_up]

theorem Detour.head? {s : Text} (h : Detour s) : ∃ c r, s = c :: r ∧ c ≠ '/' := by
  cases h with
  | stay => exact ⟨'.', [], rfl, by decide⟩
  | back h =>
    obtain ⟨c, r, rfl⟩ := List.exists_cons_of_ne_nil h.ne_nil
    exact ⟨c, r ++ '/' :: up, rfl, fun e => h.slash (by simp [e])⟩

theorem rooted_append {u : Text} (h : u ≠ []) (v : Text) :
    (parse (u ++ v)).rooted = (parse u).rooted := by
  cases u with
  | nil => exact absurd rfl h
  | cons c u => rfl

theorem rooted_closed (u : Text) : (parse (closed u)).rooted = (parse u).rooted := by
  unfold closed
  split
  · rfl
  · next h => exact rooted_append (fun e => h (.inl e)) _

section Respelt
variable {base t u : Text}

theorem Respelt.rooted (h : Respelt t u) : (parse u).rooted = (parse t).rooted := by
  cases h with
  | slash hu _ => rw [rooted_append hu, rooted_append hu]
  | @detour u s v hs _ hu =>
    by_cases hne : u = []
    · subst hne
      obtain ⟨c, r, rfl, hc⟩ := hs.head?
      have hv := hu rfl
      simp [parse, closed, hc, hv]
    · have hc : closed u ≠ [] := by
        unfold closed
        split <;> simp [hne]
      rw [List.append_assoc, rooted_append hc, rooted_closed, rooted_append hne]

theorem Respelt.foldl_stack (h : Respelt t u) (before : List Text) :
    (parse u).segments.foldl stack before = (parse t).segments.foldl stack before := by
  cases h with
  | slash _ h => rw [segments_slash, segments_append h]
  | detour hs h _ =>
    rw [List.append_assoc, segments_append (cut_closed _ _), segments_append (cut_opened _ _),
      segments_append h, segments_closed, segments_opened, List.foldl_append, List.foldl_append,
      List.foldl_append, foldl_stack_detour hs]

theorem resolve_congr (hr : (parse t).rooted = (parse u).rooted)
    (hs : ∀ before, (parse t).segments.foldl stack before =
      (parse u).segments.foldl stack before) : resolve base t = resolve base u := by
  unfold resolve join normal fold
  rw [hr]
  split
  · simp only [hr, hs]
  · simp only [List.foldl_append, hs]

end Respelt

theorem parse_render_of_plain {p : Path} (h : Plain p.segments) : parse p.render = p := by
  obtain ⟨rooted, l⟩ := p
  cases rooted with
  | true => exact parse_render rfl h
  | false => exact parse_join h

theorem fold_of_settled {l : List Text} (h : Settled l) : fold l = l := by
  have hw := @foldl_stack_wayFrom [] l h
  have hd : dropCommon l [] = (l, []) := by cases l <;> rfl
  rw [wayFrom, hd] at hw
  simpa [fold] using congrArg List.reverse hw

end Path

open Triage.Path

theorem parse_normalized (t : Text) : Path.parse (normalized t) = (Path.parse t).normal :=
  parse_render_of_plain (plain_fold (plain_parse t))

/-- Base and path may be spelled in any way: a base with its steps up folded sees the same files,
folding twice is folding once, and a path with something put in that leads nowhere is the same. -/
theorem resolve_spellings (base t : Text) :
    resolve (normalized base) t = resolve base t ∧
      normalized (normalized t) = normalized t ∧
      ∀ u, Respelt t u → resolve base u = resolve base t := by
  have hfold (l : List Text) : fold (fold l) = fold l := fold_of_settled (settled_fold l)
  refine ⟨?_, ?_, fun u h => resolve_congr h.rooted h.foldl_stack⟩
  · rw [resolve, resolve, parse_normalized]
    unfold join normal
    split
    · rfl
    · simp only [fold_append, hfold]
  · rw [normalized, parse_normalized, normalized]
    simp only [normal, hfold]

/-- A way into a directory and out again, put in where a path has climbed above the root. -/
theorem resolve_spellings_above_root :
    let base := "../repo/.//sub/..".toList
    let t := "/a/../..//x.ts".toList
    let u := "/a/../../dir/..//x.ts".toList
    resolve base u = "/../x.ts".toList ∧ resolve base u = resolve base t ∧
      resolve (normalized base) u = resolve base u := by
  intro base t u
  have hu : Respelt t u := .detour (u := "/a/../..".toList) (v := "//x.ts".toList)
    (.back (s := "dir".toList) ⟨by decide, by decide, by decide, by decide⟩)
    (.inr (.inr (.inr rfl))) nofun
  exact ⟨by decide, (resolve_spellings base t).2.2 u hu, (resolve_spellings base u).1⟩

end Triage
