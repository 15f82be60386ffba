import Triage.Proofs.Transcript.Retouch

set_option autoImplicit false

namespace Triage.Transcript
open Line

/-- A line that a diagnostic is read from. -/
def Recognised (base raw : Text) : Prop :=
  raw.head?.any Text.isBlank = false ∧ ∃ d, Gives base (stripped raw) d

theorem recognised_iff {base raw : Text} : Recognised base raw ↔
    raw.head?.any Text.isBlank = false ∧
      ((Line.read (stripped raw)).bind (Form.diagnostic base)).isSome = true := by
  simp only [Recognised, Option.isSome_iff_exists, diagnostic_read_iff]

instance (base raw : Text) : Decidable (Recognised base raw) := decidable_of_iff' _ recognised_iff

/-- The lines in front of the first one that is recognised, or all lines where none is. -/
def preamble (base text : Text) : List Text :=
  (Text.split '\n' text).takeWhile fun l => ¬ Recognised base l

/-- No line with anything in it is indented before the first diagnostic. -/
def SelfContained (base text : Text) : Prop :=
  ∀ l ∈ preamble base text, l.head?.any Text.isBlank = true → Text.blank l = true

instance (base text : Text) : Decidable (SelfContained base text) :=
  inferInstanceAs (Decidable (∀ l ∈ preamble base text, _ → _))

/-- What indented lines among others add to a message. -/
def further (ls : List Text) : List Text :=
  continuations (ls.filter fun l => l.head?.any Text.isBlank)

section Lines
variable {base l : Text} {ls : List Text}

theorem further_cons_blank (h : Text.blank l = true) (ls : List Text) :
    further (l :: ls) = further ls := by
  cases hi : l.head?.any Text.isBlank <;> simp [further, continuations, h, hi]

theorem further_cons_flush (h : l.head?.any Text.isBlank = false) (ls : List Text) :
    further (l :: ls) = further ls := by
  simp [further, h]

theorem further_cons_indented (hb : Text.blank l = false) (hi : l.head?.any Text.isBlank = true)
    (ls : List Text) : further (l :: ls) = Text.trimEnd Text.isBlank l :: further ls := by
  simp [further, continuations, hb, hi]

theorem further_eq_nil_iff :
    further ls = [] ↔ ∀ l ∈ ls, l.head?.any Text.isBlank = true → Text.blank l = true := by
  simp [further, continuations_eq_nil_iff]

theorem effect_recognised (h : Recognised base l) : ∃ d, effect base l = .add d := by
  obtain ⟨hflush, d, hd⟩ := h
  exact ⟨d, by rw [effect_flush hflush, diagnostic_read_iff.2 hd]; rfl⟩

theorem effect_unrecognised (hflush : l.head?.any Text.isBlank = false)
    (h : ¬ Recognised base l) : effect base l = .nothing := by
  rw [effect_flush hflush]
  cases hd : (Line.read (stripped l)).bind (Form.diagnostic base) with
  | none => rfl
  | some d => exact absurd ⟨hflush, d, diagnostic_read_iff.1 hd⟩ h

theorem foldl_apply_append (es : List Effect) (ds init : List Diagnostic) (d : Diagnostic) :
    es.foldl Effect.apply (ds ++ (init ++ [d])) = ds ++ es.foldl Effect.apply (init ++ [d]) := by
  induction es generalizing init d with
  | nil => rfl
  | cons e es ih =>
    cases e with
    | nothing => exact ih init d
    | extend more =>
      simp only [List.foldl_cons, Effect.apply]
      rw [← List.append_assoc, extendLast_concat, extendLast_concat, List.append_assoc, ih]
    | add d' =>
      simp only [List.foldl_cons, Effect.apply]
      rw [List.append_assoc, ih]

/-- The lines may be told apart at the first one recognised: behind it the diagnostics before are
out of reach, and in front of it all that a line can do is extend the last of them. -/
theorem foldl_effect (ls : List Text) (ds : List Diagnostic) :
    (ls.map (effect base)).foldl Effect.apply ds =
      ((further (ls.takeWhile fun l => ¬ Recognised base l)).map Effect.extend).foldl Effect.apply
        ds ++ (ls.map (effect base)).foldl Effect.apply [] := by
  induction ls generalizing ds with
  | nil => exact (List.append_nil ds).symm
  | cons l ls ih =>
    rw [List.map_cons, List.foldl_cons, List.foldl_cons]
    by_cases hr : Recognised base l
    · obtain ⟨d, hd⟩ := effect_recognised hr
      rw [List.takeWhile_cons_of_neg (by simpa using hr), hd]
      exact foldl_apply_append _ ds [] d
    · rw [List.takeWhile_cons_of_pos (by simpa using hr)]
      cases hb : Text.blank l with
      | true =>
        rw [effect_blank hb, further_cons_blank hb]
        exact ih ds
      | false =>
        cases hi : l.head?.any Text.isBlank with
        | true =>
          rw [effect_indented hb hi, further_cons_indented hb hi]
          exact ih _
        | false =>
          rw [effect_unrecognised hi hr, further_cons_flush hi]
          exact ih ds

end Lines

section Texts
variable {base text : Text} {ls : List Text} {ds : List Diagnostic}

theorem readOn_eq (base : Text) (ds : List Diagnostic) (text : Text) :
    readOn base ds text =
      ((further (preamble base text)).map Effect.extend).foldl Effect.apply ds ++
        read base text :=
  foldl_effect _ ds

theorem readOn_eq_append_iff :
    readOn base ds text = ds ++ read base text ↔ ds = [] ∨ SelfContained base text := by
  rw [readOn_eq, List.append_cancel_right_eq, foldl_extend_eq_self_iff, further_eq_nil_iff]
  rfl

theorem readOn_indented (h : Indented ls) (ds : List Diagnostic) :
    readOn base ds (Text.join ['\n'] ls) =
      ((continuations ls).map Effect.extend).foldl Effect.apply ds := by
  cases ls with
  | nil => rfl
  | cons l ls => rw [readOn, Text.split_join (by simp) fun l hl => (h l hl).1, foldl_indented h]

end Texts

/-- Behind one another, with a line break between them, two texts give what each of them gives, if
the first gives nothing or the second has no indented line in front of its first diagnostic, and
otherwise they do not. A text of indented lines alone goes to the message of the last diagnostic, or
nowhere. -/
theorem read_concatenated (base a b : Text) (n : Nat) :
    let both := a ++ List.replicate n '\r' ++ '\n' :: b
    (read base both = read base a ++ read base b ↔ read base a = [] ∨ SelfContained base b) ∧
    ∀ ls, Indented ls → (∀ l ∈ ls, Text.blank l = false) →
      b = Text.join ['\n'] ls ∨ b = Text.join ['\n'] ls ++ ['\n'] →
      (read base a = [] → read base both = []) ∧
      ∀ init d, read base a = init ++ [d] → read base both = init ++ [{ d with
        message := Text.join ['\n'] (d.message :: ls.map (Text.trimEnd Text.isBlank)) }] := by
  intro both
  have hboth : read base both = readOn base (read base a) b := by
    rw [read_append]
    exact congrArg (readOn base · b) (readOn_returns [] a n)
  rw [hboth]
  refine ⟨readOn_eq_append_iff, fun ls hls hfull hb => ?_⟩
  have hc : continuations ls = ls.map (Text.trimEnd Text.isBlank) := by
    rw [continuations, List.filter_eq_self.2 fun l hl => by simp [hfull l hl]]
  have hread (ds : List Diagnostic) : readOn base ds b =
      ((ls.map (Text.trimEnd Text.isBlank)).map Effect.extend).foldl Effect.apply ds := by
    rw [← hc, ← readOn_indented hls]
    rcases hb with rfl | rfl
    · rfl
    · rw [readOn_append, readOn_nil]
  constructor
  · intro ha
    rw [ha, hread]
    exact foldl_extend_eq_self_iff.2 (.inl rfl)
  · intro init d ha
    rw [ha, hread, foldl_extend]

/-- Two builds with a banner between them, and a text of indented lines behind a diagnostic and
behind none. -/
theorem read_concatenated_builds :
    let base := "/repo".toList
    let a := "a.ts(1,1): error TS1: x".toList
    let b := "Build:\n \t\nerror TS2: y\n  of y\n".toList
    let ls := ["  more \r".toList, "\tand more".toList]
    let more := Text.join ['\n'] ls ++ ['\n']
    let d : Diagnostic := ⟨some "/repo/a.ts".toList, some 1, some 1, 1, .error, "x".toList⟩
    SelfContained base b ∧
      read base (a ++ List.replicate 1 '\r' ++ '\n' :: b) = read base a ++ read base b ∧
      (read base b).map (·.message) = ["y\n  of y".toList] ∧
      read base (a ++ List.replicate 0 '\r' ++ '\n' :: more) =
        [{ d with message := "x\n  more\n\tand more".toList }] ∧
      read base ([] ++ List.replicate 0 '\r' ++ '\n' :: more) = [] := by
  intro base a b ls more d
  have hb : SelfContained base b := by decide +kernel
  have hls : Indented ls ∧ ∀ l ∈ ls, Text.blank l = false := by decide
  have hmore := (read_concatenated base a more 0).2 ls hls.1 hls.2 (.inr rfl)
  have hnone := (read_concatenated base [] more 0).2 ls hls.1 hls.2 (.inr rfl)
  exact ⟨hb, (read_concatenated base a b 1).1.2 (.inr hb), by decide +kernel,
    hmore.2 [] d (by decide +kernel), hnone.1 rfl⟩

end Triage.Transcript
