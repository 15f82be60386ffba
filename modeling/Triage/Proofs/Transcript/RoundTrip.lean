import Triage.Proofs.Path.Display
import Triage.Proofs.Transcript.Effect
import Triage.Report.Diagnostics

set_option autoImplicit false

namespace Triage

namespace Diagnostic

def firstLine (d : Diagnostic) : Text := (Text.split '\n' d.message).headD []

def furtherLines (d : Diagnostic) : List Text := (Text.split '\n' d.message).tail

/-- A diagnostic stands at a line and column of a known file, or nowhere. -/
def Placed (d : Diagnostic) : Prop :=
  (d.file = none ∧ d.line = none ∧ d.column = none) ∨
  ∃ file line column, d.file = some file ∧ d.line = some line ∧ d.column = some column ∧
    file.head? = some '/' ∧ normalized file = file

theorem split_message (d : Diagnostic) :
    Text.split '\n' d.message = d.firstLine :: d.furtherLines := by
  unfold firstLine furtherLines
  cases h : Text.split '\n' d.message with
  | nil => exact absurd h (Text.split_ne_nil _ _)
  | cons l ls => rfl

theorem join_lines (d : Diagnostic) :
    Text.join ['\n'] (d.firstLine :: d.furtherLines) = d.message := by
  rw [← split_message, Text.join_split]

end Diagnostic

namespace Transcript
open Line

/-- What the printed form of a diagnostic must not be mistaken for. -/
structure Legible (base : Text) (d : Diagnostic) : Prop where
  placed : d.Placed
  shown : ∀ file, d.file = some file → '\n' ∉ displayed base file ∧
    (displayed base file).head?.any Text.isBlank = false ∧ ¬ HasMarker (displayed base file)
  first : d.firstLine.getLast? ≠ some '\r' ∧ (d.file = none → ¬ HasMarker d.firstLine)
  further : ∀ l ∈ d.furtherLines, l.head?.any Text.isBlank = true ∧ Text.blank l = false ∧
    l.getLast?.any Text.isBlank = false

def heading (d : Diagnostic) : Heading := ⟨d.severity.word, Text.ofNat d.code.toNat, d.message⟩

theorem digits_ofNat (n : Nat) : Digits (Text.ofNat n) :=
  ⟨Text.ofNat_ne_nil n, fun _ hc => Text.isDecimal_of_isDigit (Text.isDigit_of_mem_ofNat hc)⟩

theorem spelt_heading (d : Diagnostic) : (heading d).Spelt := by
  have hs : d.severity.word.map Text.fold = d.severity.word := by cases d.severity <;> decide
  exact ⟨⟨d.severity, hs⟩, digits_ofNat _⟩

theorem diagnostic_heading (d : Diagnostic) :
    (heading d).diagnostic = some { d with file := none, line := none, column := none } := by
  have hs : Severity.ofAnyCase? d.severity.word = some d.severity := by
    cases d.severity <;> decide
  simp [Heading.diagnostic, heading, hs, Text.toWord?_ofNat]

theorem plain_nowhere {base : Text} {d : Diagnostic} (h : d.file = none) :
    (Report.diagnostic base d).plain = (heading d).spelled := by
  have hl : Report.location base d = [] := by simp [Report.location, h]
  simp [Report.diagnostic, hl, Report.codeName, heading, Heading.spelled]

theorem plain_located {base file : Text} {line column : UInt32} {d : Diagnostic}
    (hf : d.file = some file) (hl : d.line = some line) (hc : d.column = some column) :
    (Report.diagnostic base d).plain = displayed base file ++
      Marker.spelled ⟨Text.ofNat line.toNat, Text.ofNat column.toNat, heading d⟩ := by
  simp [Report.diagnostic, Report.location, hf, hl, hc, Report.codeName, heading, Heading.spelled,
    Marker.spelled]

theorem not_mem_word (s : Severity) : '(' ∉ s.word ∧ '\n' ∉ s.word := by cases s <;> decide

theorem hasMarker_message {d : Diagnostic} (h : HasMarker (heading d).spelled) :
    HasMarker d.message := by
  refine hasMarker_of_append ?_ h
  simp [heading, not_mem_word, Text.not_mem_ofNat (c := '(') (by decide)]

theorem read_printed {base : Text} {d : Diagnostic} (hb : base.head? = some '/') (hp : d.Placed)
    (hf : ∀ file, d.file = some file → ¬ HasMarker (displayed base file))
    (hm : d.file = none → ¬ HasMarker d.message) :
    (Line.read (Report.diagnostic base d).plain).bind (Form.diagnostic base) = some d := by
  obtain ⟨hfile, hline, hcolumn⟩ | ⟨file, line, column, hfile, hline, hcolumn, hroot, hnormal⟩ := hp
  · have hs : splitFile (heading d).spelled = none :=
      splitFile_eq_none fun h => hm hfile (hasMarker_message h)
    have hr : Line.read (heading d).spelled = some (.global (heading d)) := by
      simp [Line.read, hs, readHeading_spelled (spelt_heading d)]
    have hd : { d with file := none, line := none, column := none } = d := by
      cases d; cases hfile; cases hline; cases hcolumn; rfl
    rw [plain_nowhere hfile, hr, Option.bind_some, Form.diagnostic, diagnostic_heading, hd]
  · have hs := splitFile_append (displayed_ne_nil hb hroot) (hf file hfile)
      (m := ⟨Text.ofNat line.toNat, Text.ofNat column.toNat, heading d⟩)
      ⟨digits_ofNat _, digits_ofNat _, spelt_heading d⟩
    have hd : (heading d).diagnostic = some { d with file := none, line := none, column := none } :=
      diagnostic_heading d
    rw [plain_located hfile hline hcolumn, Line.read, hs, Option.bind_some]
    simp [Form.diagnostic, hd, resolve_displayed hb hroot, hnormal, Text.toWord?_ofNat,
      ← hfile, ← hline, ← hcolumn]

section Lines
variable {base : Text} {d : Diagnostic}

def opening (base : Text) (d : Diagnostic) : Text :=
  (Report.location base d).plain ++ d.severity.word ++ " TS".toList ++ Text.ofNat d.code.toNat ++
    ": ".toList

theorem plain_diagnostic (base : Text) (d : Diagnostic) :
    (Report.diagnostic base d).plain = opening base d ++ d.message := by
  simp [Report.diagnostic, opening, Report.codeName]

theorem not_mem_opening (h : Legible base d) : '\n' ∉ opening base d := by
  have hl : '\n' ∉ (Report.location base d).plain := by
    obtain ⟨hfile, -, -⟩ | ⟨file, line, column, hfile, hline, hcolumn, -, -⟩ := h.placed
    · simp [Report.location, hfile]
    · have hs := (h.shown file hfile).1
      simp [Report.location, hfile, hline, hcolumn, hs, Text.not_mem_ofNat (c := '\n') (by decide)]
  simp [opening, hl, not_mem_word, Text.not_mem_ofNat (c := '\n') (by decide)]

theorem head?_opening (hb : base.head? = some '/') (h : Legible base d) :
    ∃ c, (opening base d).head? = some c ∧ Text.isBlank c = false := by
  obtain ⟨hfile, -, -⟩ | ⟨file, line, column, hfile, hline, hcolumn, hroot, -⟩ := h.placed
  · have hw : ∃ c, d.severity.word.head? = some c ∧ Text.isBlank c = false := by
      cases d.severity <;> exact ⟨_, rfl, by decide⟩
    obtain ⟨c, hw, hc⟩ := hw
    exact ⟨c, by simp [opening, Report.location, hfile, List.head?_append, hw], hc⟩
  · have hs := (h.shown file hfile).2.1
    cases hd : displayed base file with
    | nil => exact absurd hd (displayed_ne_nil hb hroot)
    | cons c t =>
      rw [hd] at hs
      refine ⟨c, ?_, by simpa using hs⟩
      simp [opening, Report.location, hfile, hline, hcolumn, hd]

theorem getLast?_opening (m : Text) :
    (opening base d ++ m).getLast? = some (m.getLast?.getD ' ') := by
  have ho : (opening base d).getLast? = some ' ' := by
    rw [opening, List.getLast?_append]
    rfl
  rw [List.getLast?_append, ho]
  cases m.getLast? <;> rfl

theorem split_printed (h : Legible base d) :
    Text.split '\n' (Report.diagnostic base d).plain =
      (opening base d ++ d.firstLine) :: d.furtherLines := by
  rw [plain_diagnostic, Text.split_of_not_mem_append (not_mem_opening h), d.split_message]
  rfl

theorem effect_opening (hb : base.head? = some '/') (h : Legible base d) :
    effect base (opening base d ++ d.firstLine) = .add { d with message := d.firstLine } := by
  have hcr : (opening base d ++ d.firstLine).getLast? ≠ some '\r' := by
    have hf := h.first.1
    rw [getLast?_opening]
    cases hl : d.firstLine.getLast? <;> simp_all
  have hread : (Line.read (opening base d ++ d.firstLine)).bind (Form.diagnostic base) =
      some { d with message := d.firstLine } := by
    have hr := read_printed (d := { d with message := d.firstLine }) hb h.placed
      (fun file hf => (h.shown file hf).2.2) h.first.2
    rwa [plain_diagnostic] at hr
  obtain ⟨c, ho, hc⟩ := head?_opening hb h
  have hhead : (opening base d ++ d.firstLine).head?.any Text.isBlank = false := by
    simp [List.head?_append, ho, hc]
  rw [effect_flush hhead, stripped_eq_self hcr, hread]
  rfl

theorem effect_further (h : Legible base d) {l : Text} (hl : l ∈ d.furtherLines) :
    effect base l = .extend l := by
  obtain ⟨hhead, hblank, hlast⟩ := h.further l hl
  rw [effect_indented hblank hhead, Text.trimEnd_of_getLast hlast]

theorem effect_noise {l : Text} (hlast : l.getLast? ≠ some '\r')
    (hhead : l.head?.any Text.isBlank = false) (hl : ':' ∉ l) : effect base l = .nothing := by
  rw [effect_flush hhead, stripped_eq_self hlast, read_eq_none hl]
  rfl

end Lines

theorem foldl_printed {base : Text} {d : Diagnostic} (hb : base.head? = some '/')
    (h : Legible base d) (ds : List Diagnostic) :
    ((Text.split '\n' (Report.diagnostic base d).plain).map (effect base)).foldl Effect.apply ds =
      ds ++ [d] := by
  have hf : d.furtherLines.map (effect base) = d.furtherLines.map Effect.extend :=
    List.map_congr_left fun l hl => effect_further h hl
  rw [split_printed h, List.map_cons, effect_opening hb h, hf, List.foldl_cons, Effect.apply,
    foldl_extend, d.join_lines]

theorem foldl_printed_all {base : Text} {ds : List Diagnostic} (hb : base.head? = some '/')
    (h : ∀ d ∈ ds, Legible base d) (before : List Diagnostic) :
    ((ds.flatMap fun d => Text.split '\n' (Report.diagnostic base d).plain).map
      (effect base)).foldl Effect.apply before = before ++ ds := by
  induction ds generalizing before with
  | nil => simp
  | cons d ds ih =>
    rw [List.flatMap_cons, List.map_append, List.foldl_append, foldl_printed hb (h d (by simp)),
      ih fun e he => h e (by simp [he])]
    simp

def footer (ds : List Diagnostic) : Text :=
  "Found ".toList ++ Text.ofNat (ds.countP (·.severity = .error)) ++ " error(s), ".toList ++
    Text.ofNat (ds.countP (·.severity = .warning)) ++ " warning(s).".toList

theorem render_diagnostics (base : Text) (ds : List Diagnostic) :
    (Report.diagnostics base ds).render false =
      ds.flatMap (fun d => (Report.diagnostic base d).plain ++ ['\n']) ++
        '\n' :: (footer ds ++ ['\n']) := by
  have hopen : "\nFound ".toList = '\n' :: "Found ".toList := rfl
  have hclose : " warning(s).\n".toList = " warning(s).".toList ++ ['\n'] := rfl
  have hline : "\n".toList = ['\n'] := rfl
  unfold footer
  simp only [Styled.render, Report.diagnostics, Report.countOf, Styled.plain_append,
    Styled.plain_flatMap, Styled.plain_lit, Styled.plain_inStyle, hopen, hclose, hline,
    List.append_assoc, List.cons_append, Bool.false_eq_true, if_false]

theorem not_mem_footer (ds : List Diagnostic) : '\n' ∉ footer ds ∧ ':' ∉ footer ds := by
  have hn : ∀ n, '\n' ∉ Text.ofNat n := Text.not_mem_ofNat (by decide)
  have hc : ∀ n, ':' ∉ Text.ofNat n := Text.not_mem_ofNat (by decide)
  unfold footer
  simp only [List.mem_append, hn, hc, not_or]
  decide

theorem effect_footer (base : Text) (ds : List Diagnostic) :
    effect base (footer ds) = .nothing := by
  have hlast : (footer ds).getLast? = some '.' := by
    unfold footer
    rw [List.getLast?_append]
    rfl
  have hhead : (footer ds).head? = some 'F' := by
    unfold footer
    simp only [List.append_assoc, List.head?_append]
    rfl
  refine effect_noise ?_ ?_ (not_mem_footer ds).2
  · rw [hlast]
    decide
  · rw [hhead]
    decide

/-- Seen from the directory they were printed for, printed diagnostics are the diagnostics again,
and the text ends with the counts of their errors and warnings. -/
theorem read_render_diagnostics {base : Text} {ds : List Diagnostic} (hb : base.head? = some '/')
    (h : ∀ d ∈ ds, Legible base d) :
    read base ((Report.diagnostics base ds).render false) = ds ∧
      "\nFound ".toList ++ Text.ofNat (ds.countP (·.severity = .error)) ++ " error(s), ".toList ++
        Text.ofNat (ds.countP (·.severity = .warning)) ++ " warning(s).\n".toList <:+
        (Report.diagnostics base ds).render false := by
  constructor
  · have hfooter : Text.split '\n' ('\n' :: (footer ds ++ ['\n'])) = [[], footer ds, []] := by
      have hf := Text.split_append '\n' (footer ds) []
      rw [Text.split_of_not_mem (not_mem_footer ds).1] at hf
      simp [Text.split, hf]
    have hempty : effect base [] = .nothing := rfl
    rw [render_diagnostics, read, Text.split_lines, hfooter, List.map_append, List.foldl_append,
      foldl_printed_all hb h]
    simp [hempty, effect_footer, Effect.apply]
  · refine ⟨ds.flatMap fun d => (Report.diagnostic base d).plain ++ ['\n'], ?_⟩
    simp [Styled.render, Report.diagnostics, Report.countOf]

/-- A file outside the base whose message quotes a marker, and a diagnostic of the whole project. -/
theorem read_render_outside :
    let d : Diagnostic := ⟨some "/repo/src/a(1,2).ts".toList, some 3, some 14, 2322, .error,
      "Type 'x'\n  (1,2): error TS1: quoted\n\tlast.".toList⟩
    let e : Diagnostic := ⟨none, none, none, 18003, .warning, []⟩
    read "/repo/sub".toList ((Report.diagnostics "/repo/sub".toList [d, e]).render false) = [d, e] ∧
      "\nFound 1 error(s), 1 warning(s).\n".toList <:+
        (Report.diagnostics "/repo/sub".toList [d, e]).render false := by
  refine read_render_diagnostics (by decide) fun d hd => ?_
  simp only [List.mem_cons, List.not_mem_nil, or_false] at hd
  rcases hd with rfl | rfl
  · refine ⟨.inr ⟨_, _, _, rfl, rfl, rfl, by decide, by decide⟩, ?_, by decide, by decide⟩
    rintro file ⟨⟩
    decide
  · exact ⟨.inl ⟨rfl, rfl, rfl⟩, by rintro file ⟨⟩, by decide, by decide⟩

end Transcript
end Triage
