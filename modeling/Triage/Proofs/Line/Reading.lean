import Triage.Proofs.Line.Grammar
import Triage.Proofs.Text.Words

set_option autoImplicit false

/-!
What a line says. It may be cut into a file and a marker in more than one way; the cut with the
shortest file is the one that is found (`splitFile_eq_some_iff`), and only a line that has no such
cut can be a heading alone. A diagnostic comes of it if the severity is a word and the code a number
(`diagnostic_read_iff`).
-/

namespace Triage.Line

/-- The line is a file and a marker behind it. -/
structure Reading (t file : Text) (m : Marker) : Prop where
  ne_nil : file ≠ []
  marker : m.Spelt
  spelled : t = file ++ m.spelled

/-- The reading of the line with the shortest file. -/
structure Foremost (t file : Text) (m : Marker) : Prop where
  reading : Reading t file m
  least : ∀ {file' : Text} {m' : Marker}, Reading t file' m' → file.length ≤ file'.length

/-- The diagnostic is of the severity that the heading names in any letter case, and has its code
and its message. -/
structure Heading.Names (h : Heading) (d : Diagnostic) : Prop where
  severity : Text.AnyCase h.severity d.severity.word
  code : Text.Writes h.code d.code
  message : d.message = h.message

inductive Gives (base t : Text) (d : Diagnostic) : Prop
  | located {file : Text} {m : Marker} (reading : Foremost t file m) (heading : m.heading.Names d)
      (file : d.file = some (resolve base file))
      (line : ∀ n, d.line = some n ↔ Text.Writes m.line n)
      (column : ∀ n, d.column = some n ↔ Text.Writes m.column n)
  | global {h : Heading} (unplaced : ∀ file m, ¬ Reading t file m) (spelt : h.Spelt)
      (spelled : t = h.spelled) (heading : h.Names d)
      (nowhere : d.file = none ∧ d.line = none ∧ d.column = none)

/-- A line has a heading: that of its reading with the shortest file or, without a reading, the one
that it is. -/
inductive Heads (t : Text) : Heading → Prop
  | located {file : Text} {m : Marker} (reading : Foremost t file m) : Heads t m.heading
  | global {h : Heading} (unplaced : ∀ file m, ¬ Reading t file m) (spelt : h.Spelt)
      (spelled : t = h.spelled) : Heads t h

/-- A line of neither form. -/
structure Formless (t : Text) : Prop where
  unplaced : ∀ file m, ¬ Reading t file m
  headless : ∀ h : Heading, h.Spelt → t ≠ h.spelled

theorem readHeading_eq_some_iff {t : Text} {h : Heading} :
    readHeading t = some h ↔ h.Spelt ∧ t = h.spelled :=
  ⟨readHeading_sound, fun ⟨hs, ht⟩ => ht ▸ readHeading_spelled hs⟩

theorem readMarker_eq_some_iff {t : Text} {m : Marker} :
    readMarker t = some m ↔ m.Spelt ∧ t = m.spelled :=
  ⟨readMarker_sound, fun ⟨hm, ht⟩ => ht ▸ readMarker_spelled hm⟩

section Splitting
variable {c : Char} {t file : Text} {m m' : Marker}

theorem Reading.marker_unique (h : Reading t file m) (h' : Reading t file m') : m = m' := by
  have hs : m.spelled = m'.spelled := List.append_cancel_left (h.spelled.symm.trans h'.spelled)
  have hm := readMarker_spelled h.marker
  rw [hs, readMarker_spelled h'.marker] at hm
  exact (Option.some.inj hm).symm

/-- Either the file ends with its first character, or the rest of the line reads alike. -/
theorem reading_cons_iff : Reading (c :: t) file m ↔
    (file = [c] ∧ readMarker t = some m) ∨ ∃ rest, file = c :: rest ∧ Reading t rest m := by
  rw [readMarker_eq_some_iff]
  constructor
  · rintro ⟨hne, hm, ht⟩
    cases file with
    | nil => exact absurd rfl hne
    | cons a rest =>
      obtain ⟨rfl, hrest⟩ := List.cons.inj ht
      cases rest with
      | nil => exact .inl ⟨rfl, hm, hrest⟩
      | cons b rest => exact .inr ⟨b :: rest, rfl, by simp, hm, hrest⟩
  · rintro (⟨rfl, hm, rfl⟩ | ⟨rest, rfl, -, hm, rfl⟩)
    · exact ⟨by simp, hm, rfl⟩
    · exact ⟨by simp, hm, rfl⟩

theorem splitFile_foremost (h : splitFile t = some (file, m)) : Foremost t file m := by
  induction t generalizing file with
  | nil => cases h
  | cons c t ih =>
    rw [splitFile] at h
    cases hm : readMarker t with
    | some m' =>
      simp only [hm, Option.some.injEq, Prod.mk.injEq] at h
      obtain ⟨rfl, rfl⟩ := h
      exact ⟨reading_cons_iff.2 (.inl ⟨rfl, hm⟩), fun h' => List.length_pos_iff.2 h'.ne_nil⟩
    | none =>
      simp only [hm, Option.map_eq_some_iff, Prod.mk.injEq] at h
      obtain ⟨⟨rest, _⟩, hr, rfl, rfl⟩ := h
      have hrest := ih hr
      refine ⟨reading_cons_iff.2 (.inr ⟨rest, rfl, hrest.reading⟩), fun h' => ?_⟩
      rcases reading_cons_iff.1 h' with ⟨-, hm'⟩ | ⟨rest', rfl, hr'⟩
      · rw [hm] at hm'
        cases hm'
      · exact Nat.succ_le_succ (hrest.least hr')

theorem splitFile_isSome (h : Reading t file m) : (splitFile t).isSome = true := by
  induction t generalizing file with
  | nil => exact absurd (List.append_eq_nil_iff.1 h.spelled.symm).1 h.ne_nil
  | cons c t ih =>
    rw [splitFile]
    cases hm : readMarker t with
    | some m' => rfl
    | none =>
      rcases reading_cons_iff.1 h with ⟨-, hm'⟩ | ⟨rest, -, h⟩
      · rw [hm] at hm'
        cases hm'
      · simpa using ih h

theorem splitFile_eq_none_iff : splitFile t = none ↔ ∀ file m, ¬ Reading t file m := by
  constructor
  · intro hn file m h
    have hs := splitFile_isSome h
    rw [hn] at hs
    cases hs
  · intro h
    cases hs : splitFile t with
    | none => rfl
    | some r => exact absurd (splitFile_foremost hs).reading (h r.1 r.2)

theorem splitFile_eq_some_iff : splitFile t = some (file, m) ↔ Foremost t file m := by
  refine ⟨splitFile_foremost, fun h => ?_⟩
  obtain ⟨⟨file', m'⟩, hs⟩ := Option.isSome_iff_exists.1 (splitFile_isSome h.reading)
  have h' := splitFile_foremost hs
  have hl : file.length = file'.length := Nat.le_antisymm (h.least h'.reading) (h'.least h.reading)
  have hf : file = file' :=
    (List.append_inj (h.reading.spelled.symm.trans h'.reading.spelled) hl).1
  subst hf
  rw [hs, h.reading.marker_unique h'.reading]

end Splitting

section Forms
variable {t file : Text} {m : Marker} {h : Heading}

def Form.heading : Form → Heading
  | .located _ m => m.heading
  | .global h => h

theorem heads_iff : Heads t h ↔ ∃ f, read t = some f ∧ f.heading = h := by
  unfold read
  constructor
  · rintro (@⟨file, m, hf⟩ | ⟨hn, hspelt, hspelled⟩)
    · rw [splitFile_eq_some_iff.2 hf]
      exact ⟨_, rfl, rfl⟩
    · rw [splitFile_eq_none_iff.2 hn, readHeading_eq_some_iff.2 ⟨hspelt, hspelled⟩]
      exact ⟨_, rfl, rfl⟩
  · rintro ⟨f, hf, rfl⟩
    cases hs : splitFile t with
    | some r =>
      rw [hs] at hf
      cases hf
      exact .located (splitFile_foremost hs)
    | none =>
      rw [hs] at hf
      obtain ⟨h, hh, rfl⟩ := Option.map_eq_some_iff.1 hf
      obtain ⟨hspelt, hspelled⟩ := readHeading_sound hh
      exact .global (splitFile_eq_none_iff.1 hs) hspelt hspelled

theorem read_eq_none_iff : read t = none ↔ Formless t := by
  constructor
  · intro hr
    have hs : splitFile t = none := by
      cases hs : splitFile t with
      | none => rfl
      | some r => simp [read, hs] at hr
    refine ⟨splitFile_eq_none_iff.1 hs, fun h hspelt hspelled => ?_⟩
    rw [read, hs, readHeading_eq_some_iff.2 ⟨hspelt, hspelled⟩] at hr
    cases hr
  · intro hf
    rw [read, splitFile_eq_none_iff.2 hf.unplaced]
    cases hh : readHeading t with
    | none => rfl
    | some h =>
      obtain ⟨hspelt, hspelled⟩ := readHeading_sound hh
      exact absurd hspelled (hf.headless h hspelt)

instance (t : Text) : Decidable (Formless t) := decidable_of_iff _ read_eq_none_iff

theorem Heading.spelled_append (h : Heading) (s : Text) :
    h.spelled ++ s = { h with message := h.message ++ s }.spelled := by
  simp [Heading.spelled]

theorem Reading.append (h : Reading t file m) (s : Text) :
    Reading (t ++ s) file
      { m with heading := { m.heading with message := m.heading.message ++ s } } where
  ne_nil := h.ne_nil
  marker := ⟨h.marker.line, h.marker.column, h.marker.heading.severity, h.marker.heading.code⟩
  spelled := by
    rw [h.spelled, List.append_assoc, Marker.spelled, List.append_assoc, m.heading.spelled_append]
    rfl

theorem Formless.of_append {s : Text} (h : Formless (t ++ s)) : Formless t where
  unplaced file _ hr := h.unplaced file _ (hr.append s)
  headless g hg ht := h.headless { g with message := g.message ++ s } ⟨hg.severity, hg.code⟩ <| by
    rw [ht, g.spelled_append]

end Forms

section Diagnostics
variable {base t file : Text} {m : Marker} {h : Heading} {d : Diagnostic}

theorem Heading.diagnostic_eq_some_iff : h.diagnostic = some d ↔
    h.Names d ∧ d.file = none ∧ d.line = none ∧ d.column = none := by
  simp only [Heading.diagnostic, Option.bind_eq_bind, Option.bind_eq_some_iff, Option.pure_def,
    Option.some.injEq, Severity.ofAnyCase?_eq_some_iff, Text.toWord?_eq_some_iff]
  constructor
  · rintro ⟨s, hs, c, hc, rfl⟩
    exact ⟨⟨hs, hc, rfl⟩, rfl, rfl, rfl⟩
  · rintro ⟨⟨hs, hc, hm⟩, hfile, hline, hcolumn⟩
    refine ⟨_, hs, _, hc, ?_⟩
    cases d
    cases hfile
    cases hline
    cases hcolumn
    cases hm
    rfl

theorem Form.diagnostic_located_iff : (Form.located file m).diagnostic base = some d ↔
    m.heading.Names d ∧ d.file = some (resolve base file) ∧
      (∀ n, d.line = some n ↔ Text.Writes m.line n) ∧
      ∀ n, d.column = some n ↔ Text.Writes m.column n := by
  simp only [← Text.toWord?_eq_some_iff, ← Option.ext_iff]
  simp only [Form.diagnostic, Option.bind_eq_bind, Option.bind_eq_some_iff, Option.pure_def,
    Option.some.injEq, Heading.diagnostic_eq_some_iff]
  constructor
  · rintro ⟨e, ⟨⟨hs, hc, hm⟩, -⟩, rfl⟩
    exact ⟨⟨hs, hc, hm⟩, rfl, rfl, rfl⟩
  · rintro ⟨⟨hs, hc, hm⟩, hfile, hline, hcolumn⟩
    refine ⟨{ d with file := none, line := none, column := none },
      ⟨⟨hs, hc, hm⟩, rfl, rfl, rfl⟩, ?_⟩
    rw [← hfile, ← hline, ← hcolumn]

theorem diagnostic_read_iff :
    (read t).bind (Form.diagnostic base) = some d ↔ Gives base t d := by
  unfold read
  cases hs : splitFile t with
  | some r =>
    obtain ⟨file, m⟩ := r
    have hf : Foremost t file m := splitFile_foremost hs
    rw [Option.bind_some, Form.diagnostic_located_iff]
    constructor
    · rintro ⟨hh, hfile, hline, hcolumn⟩
      exact .located hf hh hfile hline hcolumn
    · intro hg
      cases hg with
      | located hf' hh hfile hline hcolumn =>
        rw [splitFile_eq_some_iff.2 hf'] at hs
        cases hs
        exact ⟨hh, hfile, hline, hcolumn⟩
      | global hn _ _ _ _ => exact absurd hf.reading (hn file m)
  | none =>
    have hn := splitFile_eq_none_iff.1 hs
    simp only [Option.bind_map, Option.bind_eq_some_iff, readHeading_eq_some_iff]
    constructor
    · rintro ⟨h, ⟨hspelt, hspelled⟩, hd⟩
      obtain ⟨hh, hnowhere⟩ := Heading.diagnostic_eq_some_iff.1 hd
      exact .global hn hspelt hspelled hh hnowhere
    · intro hg
      cases hg with
      | located hf _ _ _ _ => exact absurd hf.reading (hn _ _)
      | @global h _ hspelt hspelled hh hnowhere =>
        exact ⟨h, ⟨hspelt, hspelled⟩, Heading.diagnostic_eq_some_iff.2 ⟨hh, hnowhere⟩⟩

theorem Form.names_of_diagnostic {f : Form} (hd : f.diagnostic base = some d) :
    f.heading.Names d := by
  cases f with
  | located file m => exact (Form.diagnostic_located_iff.1 hd).1
  | global h => exact (Heading.diagnostic_eq_some_iff.1 hd).1

theorem Heads.diagnostic_eq_none (hh : Heads t h) (hc : ∀ code, ¬ Text.Writes h.code code) :
    (read t).bind (Form.diagnostic base) = none := by
  obtain ⟨f, hf, rfl⟩ := heads_iff.1 hh
  rw [hf, Option.bind_some]
  cases hd : f.diagnostic base with
  | none => rfl
  | some d => exact absurd (Form.names_of_diagnostic hd).code (hc d.code)

end Diagnostics
end Triage.Line
