import Triage.Proofs.Transcript.Effect

set_option autoImplicit false

namespace Triage.Transcript
open Line

/-- A line of diagnostic form, not indented, whose code is no number below `2 ^ 32`. -/
structure Skipped (raw : Text) : Prop where
  line : '\n' ∉ raw
  flush : raw.head?.any Text.isBlank = false
  code : ∃ h, Heads (stripped raw) h ∧ ∀ code, ¬ Text.Writes h.code code

theorem skipped_iff {raw : Text} : Skipped raw ↔
    '\n' ∉ raw ∧ raw.head?.any Text.isBlank = false ∧
      (Line.read (stripped raw)).any (fun f => (Text.toWord? f.heading.code).isNone) = true := by
  have hcode : (∃ h, Heads (stripped raw) h ∧ ∀ code, ¬ Text.Writes h.code code) ↔
      (Line.read (stripped raw)).any (fun f => (Text.toWord? f.heading.code).isNone) = true := by
    simp only [heads_iff, ← Text.toWord?_eq_some_iff, Option.any_eq_true, Option.isNone_iff_eq_none,
      Option.eq_none_iff_forall_ne_some]
    constructor
    · rintro ⟨_, ⟨f, hf, rfl⟩, hc⟩
      exact ⟨f, hf, hc⟩
    · rintro ⟨f, hf, hc⟩
      exact ⟨_, ⟨f, hf, rfl⟩, hc⟩
  rw [← hcode]
  exact ⟨fun h => ⟨h.line, h.flush, h.code⟩, fun ⟨hl, hf, hc⟩ => ⟨hl, hf, hc⟩⟩

instance (raw : Text) : Decidable (Skipped raw) := decidable_of_iff' _ skipped_iff

section Blocks
variable {base raw : Text} {ls : List Text} {ds : List Diagnostic}

theorem effect_skipped (h : Skipped raw) : effect base raw = .nothing := by
  obtain ⟨g, hg, hc⟩ := h.code
  rw [effect_flush h.flush, hg.diagnostic_eq_none hc]
  rfl

/-- A skipped line and indented lines behind it extend the last diagnostic before them. -/
theorem readOn_skipped (hraw : Skipped raw) (hls : Indented ls) (ds : List Diagnostic) :
    readOn base ds (Text.join ['\n'] (raw :: ls)) =
      ((continuations ls).map Effect.extend).foldl Effect.apply ds := by
  have hline : ∀ l ∈ raw :: ls, '\n' ∉ l := by
    intro l hl
    rcases List.mem_cons.1 hl with rfl | hl
    · exact hraw.line
    · exact (hls l hl).1
  rw [readOn, Text.split_join (by simp) hline, List.map_cons, List.foldl_cons, effect_skipped hraw,
    foldl_indented hls]
  rfl

end Blocks

section Injective

theorem extendLast_injective (more : Text) : Function.Injective (extendLast more) := by
  intro ds ds' h
  rcases List.eq_nil_or_concat ds with rfl | ⟨init, d, rfl⟩ <;>
    rcases List.eq_nil_or_concat ds' with rfl | ⟨init', d', rfl⟩
  · rfl
  · simp [extendLast_concat, extendLast] at h
  · simp [extendLast_concat, extendLast] at h
  · simp only [List.concat_eq_append, extendLast_concat] at h ⊢
    obtain ⟨rfl, hd⟩ := List.append_inj' h rfl
    cases d
    cases d'
    simp_all

theorem apply_injective (e : Effect) : Function.Injective e.apply := by
  cases e with
  | nothing => exact Function.injective_id
  | extend more => exact extendLast_injective more
  | add d => exact fun _ _ h => List.append_cancel_right h

theorem readOn_injective (base t : Text) : Function.Injective (readOn base · t) := by
  intro ds ds' h
  simp only [readOn] at h
  generalize (Text.split '\n' t).map (effect base) = es at h
  induction es generalizing ds ds' with
  | nil => exact h
  | cons e es ih => exact apply_injective e (ih h)

end Injective

/-- The indented lines behind a skipped diagnostic extend the last diagnostic before it. So it makes
a difference to the text unless there is no diagnostic before it or nothing in these lines. -/
theorem read_skipped_block {raw : Text} {more : List Text} (hraw : Skipped raw)
    (hmore : Indented more) (base before after : Text) :
    let block := Text.join ['\n'] (raw :: more)
    (∀ init d, read base before = init ++ [d] →
      read base (Text.join ['\n'] [before, block]) =
        init ++ [{ d with message := Text.join ['\n'] (d.message :: continuations more) }]) ∧
    (read base (Text.join ['\n'] [before, block, after]) =
        read base (Text.join ['\n'] [before, after]) ↔
      read base before = [] ∨ ∀ l ∈ more, Text.blank l = true) := by
  intro block
  have htwo (s t : Text) : Text.join ['\n'] [s, t] = s ++ '\n' :: t := by simp [Text.join]
  have hthree : Text.join ['\n'] [before, block, after] =
      before ++ '\n' :: (block ++ '\n' :: after) := by simp [Text.join]
  have hblock (ds : List Diagnostic) : readOn base ds block =
      ((continuations more).map Effect.extend).foldl Effect.apply ds := readOn_skipped hraw hmore ds
  constructor
  · intro init d hd
    rw [htwo, read_append, hd, hblock, foldl_extend]
  · -- what stands behind the block keeps what it has read apart
    rw [htwo, hthree, read_append, readOn_append, read_append, (readOn_injective base after).eq_iff,
      hblock, foldl_extend_eq_self_iff, continuations_eq_nil_iff]

/-- The lines of the skipped diagnostic are lost where none stands before it, and otherwise are
those of another. -/
theorem read_skipped_block_twice :
    let base := "/repo".toList
    let raw := "b.ts(1,1): error TS4294967296: y".toList
    let more := ["  of b ".toList, " ".toList, "\talso of b".toList]
    let before := "a.ts(1,1): error TS1: x".toList
    let after := "error TS2: z".toList
    let a : Diagnostic := ⟨some "/repo/a.ts".toList, some 1, some 1, 1, .error, "x".toList⟩
    read base (Text.join ['\n'] [before, Text.join ['\n'] (raw :: more)]) =
        [{ a with message := "x\n  of b\n\talso of b".toList }] ∧
      read base (Text.join ['\n'] [[], Text.join ['\n'] (raw :: more), after]) =
        read base (Text.join ['\n'] [[], after]) := by
  intro base raw more before after a
  have h := @read_skipped_block raw more (by decide) (by decide) base
  exact ⟨(h before after).1 [] a (by decide +kernel), (h [] after).2.2 (.inl rfl)⟩

/-- Two diagnostics, with a skipped one between them: the message of the first one grows. -/
theorem read_skipped_block_extends :
    let base := "/repo".toList
    let raw := "error TS4294967296: y".toList
    let more := ["  of y".toList]
    let before := "error TS1: x".toList
    let after := "error TS2: z".toList
    Skipped raw ∧ Indented more ∧
      (read base (Text.join ['\n'] [before, Text.join ['\n'] (raw :: more), after])).map
        (·.message) = ["x\n  of y".toList, "z".toList] ∧
      read base (Text.join ['\n'] [before, Text.join ['\n'] (raw :: more), after]) ≠
        read base (Text.join ['\n'] [before, after]) := by
  refine ⟨by decide, by decide, by decide +kernel, by decide +kernel⟩

end Triage.Transcript
