import Triage.Diagnostic.Transcript
import Triage.Proofs.Line.Reading

set_option autoImplicit false

/-!
What one line does to the diagnostics of the text before it. Carriage returns at its end do not
count. A blank line does nothing and an indented one extends the last diagnostic; a line that is
neither gives the diagnostic that it can be read as, or none, and leaves those before it as they are
(`read_flush_line`).
-/

namespace Triage.Transcript
open Line

def stripped (raw : Text) : Text := Text.trimEnd (· = '\r') raw

def readOn (base : Text) (ds : List Diagnostic) (text : Text) : List Diagnostic :=
  ((Text.split '\n' text).map (effect base)).foldl Effect.apply ds

section Texts
variable {base raw : Text} {ds : List Diagnostic}

theorem readOn_line (h : '\n' ∉ raw) : readOn base ds raw = (effect base raw).apply ds := by
  rw [readOn, Text.split_of_not_mem h]
  rfl

theorem readOn_nil (base : Text) (ds : List Diagnostic) : readOn base ds [] = ds := rfl

theorem readOn_append (base : Text) (ds : List Diagnostic) (s t : Text) :
    readOn base ds (s ++ '\n' :: t) = readOn base (readOn base ds s) t := by
  rw [readOn, Text.split_append, List.map_append, List.foldl_append]
  rfl

theorem read_append (base s t : Text) :
    read base (s ++ '\n' :: t) = readOn base (read base s) t := readOn_append base [] s t

end Texts

section Returns
variable {base raw : Text}

theorem exists_stripped_append (raw : Text) :
    ∃ n, raw = stripped raw ++ List.replicate n '\r' := by
  obtain ⟨s, hs, hraw⟩ := Text.exists_trimEnd_append (· = '\r') raw
  have hr : s = List.replicate s.length '\r' :=
    List.eq_replicate_of_mem fun c hc => of_decide_eq_true (hs c hc)
  exact ⟨s.length, by rw [← hr]; exact hraw⟩

theorem isBlank_of_mem_returns {n : Nat} {c : Char} (h : c ∈ List.replicate n '\r') :
    Text.isBlank c = true := by
  rw [List.eq_of_mem_replicate h]
  decide

theorem stripped_eq_self (h : raw.getLast? ≠ some '\r') : stripped raw = raw := by
  apply Text.trimEnd_of_getLast
  cases hc : raw.getLast? <;> simp_all

theorem blank_stripped (raw : Text) : Text.blank (stripped raw) = Text.blank raw := by
  obtain ⟨n, hraw⟩ := exists_stripped_append raw
  have hb : (List.replicate n '\r').all Text.isBlank = true :=
    List.all_eq_true.2 fun c hc => isBlank_of_mem_returns hc
  conv_rhs => rw [hraw, Text.blank, List.all_append, hb, Bool.and_true]
  rfl

theorem head?_stripped (h : Text.blank raw = false) : (stripped raw).head? = raw.head? := by
  obtain ⟨n, hraw⟩ := exists_stripped_append raw
  conv_rhs => rw [hraw]
  cases hr : stripped raw with
  | nil =>
    rw [← blank_stripped, hr] at h
    cases h
  | cons c r => rfl

theorem trimEnd_stripped (raw : Text) :
    Text.trimEnd Text.isBlank (stripped raw) = Text.trimEnd Text.isBlank raw := by
  obtain ⟨n, hraw⟩ := exists_stripped_append raw
  conv_rhs => rw [hraw, Text.trimEnd_append fun c hc => isBlank_of_mem_returns hc]

theorem effect_append_returns (base raw : Text) (n : Nat) :
    effect base (raw ++ List.replicate n '\r') = effect base raw := by
  have hs : ∀ c ∈ List.replicate n '\r', decide (c = '\r') = true := fun c hc =>
    decide_eq_true (List.eq_of_mem_replicate hc)
  simp only [effect, Text.trimEnd_append hs]

end Returns

section Lines
variable {base raw : Text}

theorem effect_blank (h : Text.blank raw = true) : effect base raw = .nothing := by
  rw [← blank_stripped] at h
  exact if_pos h

theorem effect_indented (hblank : Text.blank raw = false)
    (hhead : raw.head?.any Text.isBlank = true) :
    effect base raw = .extend (Text.trimEnd Text.isBlank raw) := by
  have hb : Text.blank (stripped raw) = false := by rw [blank_stripped, hblank]
  have hh : (stripped raw).head?.any Text.isBlank = true := by rw [head?_stripped hblank, hhead]
  unfold stripped at hb hh
  simp only [effect, hb, hh, Bool.false_eq_true, if_false, if_true]
  exact congrArg Effect.extend (trimEnd_stripped raw)

theorem effect_flush (hhead : raw.head?.any Text.isBlank = false) :
    effect base raw =
      ((Line.read (stripped raw)).bind (Form.diagnostic base)).elim .nothing .add := by
  cases raw with
  | nil => rfl
  | cons c r =>
    have hblank : Text.blank (c :: r) = false := by
      simp only [List.head?_cons, Option.any_some] at hhead
      simp [Text.blank, hhead]
    have hb : Text.blank (stripped (c :: r)) = false := by rw [blank_stripped, hblank]
    have hh : (stripped (c :: r)).head?.any Text.isBlank = false := by
      rw [head?_stripped hblank, hhead]
    unfold stripped at hb hh ⊢
    simp only [effect, hb, hh, Bool.false_eq_true, if_false]
    split
    · next d hd => rw [hd]; rfl
    · next hd => rw [hd]; rfl

end Lines

section Extending
variable {base : Text} {ls : List Text} {ds : List Diagnostic}

theorem extendLast_concat (more : Text) (ds : List Diagnostic) (d : Diagnostic) :
    extendLast more (ds ++ [d]) = ds ++ [{ d with message := d.message ++ '\n' :: more }] := by
  induction ds with
  | nil => rfl
  | cons e ds ih =>
    cases ds with
    | nil => rfl
    | cons f ds => exact congrArg (e :: ·) ih

theorem foldl_extend (ls : List Text) (ds : List Diagnostic) (d : Diagnostic) :
    (ls.map Effect.extend).foldl Effect.apply (ds ++ [d]) =
      ds ++ [{ d with message := Text.join ['\n'] (d.message :: ls) }] := by
  induction ls generalizing d with
  | nil => rfl
  | cons l ls ih =>
    have hj : Text.join ['\n'] ((d.message ++ '\n' :: l) :: ls) =
        Text.join ['\n'] (d.message :: l :: ls) := by cases ls <;> simp [Text.join]
    rw [List.map_cons, List.foldl_cons, Effect.apply, extendLast_concat, ih, hj]

theorem foldl_extend_eq_self_iff :
    (ls.map Effect.extend).foldl Effect.apply ds = ds ↔ ds = [] ∨ ls = [] := by
  rcases List.eq_nil_or_concat ds with rfl | ⟨init, d, rfl⟩
  · have hnil : (ls.map Effect.extend).foldl Effect.apply [] = [] := by
      induction ls with
      | nil => rfl
      | cons l ls ih => exact ih
    simp [hnil]
  · rw [List.concat_eq_append, foldl_extend, List.append_cancel_left_eq, List.singleton_inj]
    cases ls with
    | nil => simp [Text.join]
    | cons l ls =>
      refine iff_of_false (fun h => ?_) (by simp)
      have hm := congrArg Diagnostic.message h
      simp [Text.join] at hm

def Indented (ls : List Text) : Prop := ∀ l ∈ ls, '\n' ∉ l ∧ l.head?.any Text.isBlank = true

instance (ls : List Text) : Decidable (Indented ls) :=
  inferInstanceAs (Decidable (∀ l ∈ ls, '\n' ∉ l ∧ l.head?.any Text.isBlank = true))

/-- What indented lines add to a message. -/
def continuations (ls : List Text) : List Text :=
  (ls.filter fun l => !Text.blank l).map (Text.trimEnd Text.isBlank)

theorem foldl_indented (h : Indented ls) (ds : List Diagnostic) :
    (ls.map (effect base)).foldl Effect.apply ds =
      ((continuations ls).map Effect.extend).foldl Effect.apply ds := by
  induction ls generalizing ds with
  | nil => rfl
  | cons l ls ih =>
    have ih (ds : List Diagnostic) := ih (fun l hl => h l (by simp [hl])) ds
    rw [List.map_cons, List.foldl_cons, ih]
    cases hb : Text.blank l with
    | true => simp [continuations, effect_blank hb, hb, Effect.apply]
    | false => simp [continuations, effect_indented hb (h l (by simp)).2, hb]

theorem continuations_eq_nil_iff : continuations ls = [] ↔ ∀ l ∈ ls, Text.blank l = true := by
  simp [continuations]

end Extending

section FlushLines
variable {base raw : Text}

theorem read_one_line (h : '\n' ∉ raw) : read base raw = (effect base raw).apply [] :=
  readOn_line h

theorem read_append_line (h : '\n' ∉ raw) (before : Text) :
    read base (before ++ '\n' :: raw) = (effect base raw).apply (read base before) := by
  rw [read_append, readOn_line h]

theorem apply_effect (hblank : Text.blank (stripped raw) = false)
    (hhead : (stripped raw).head?.any Text.isBlank = false) (ds : List Diagnostic) :
    (effect base raw).apply ds =
      ds ++ ((Line.read (stripped raw)).bind (Form.diagnostic base)).toList := by
  rw [blank_stripped] at hblank
  rw [head?_stripped hblank] at hhead
  rw [effect_flush hhead]
  cases (Line.read (stripped raw)).bind (Form.diagnostic base) with
  | none => exact (List.append_nil ds).symm
  | some d => rfl

/-- A line that is neither blank nor indented gives one diagnostic or none, wherever it stands: the
one that its reading with the shortest file tells of or, if it has no reading, its heading. The
diagnostics before it are not changed. -/
theorem read_flush_line (hline : '\n' ∉ raw) (hblank : Text.blank (stripped raw) = false)
    (hhead : (stripped raw).head?.any Text.isBlank = false) :
    ∃ found : Option Diagnostic, (∀ d, found = some d ↔ Gives base (stripped raw) d) ∧
      read base raw = found.toList ∧
      ∀ before, read base (before ++ '\n' :: raw) = read base before ++ found.toList := by
  refine ⟨_, fun d => diagnostic_read_iff, ?_, fun before => ?_⟩
  · rw [read_one_line hline, apply_effect hblank hhead, List.nil_append]
  · rw [read_append_line hline, apply_effect hblank hhead]

end FlushLines

/-- Parentheses in the file, a marker quoted in the message, a column in digits of another script
and a code with leading zeros. -/
theorem read_flush_line_quoting :
    let raw := "lib(1,2): odd.ts(7,٣): WARNING TS0042: see b.ts(1,1): error TS9: x\r\r".toList
    let d : Diagnostic := ⟨some "/repo/lib(1,2): odd.ts".toList, some 7, none, 42, .warning,
      "see b.ts(1,1): error TS9: x".toList⟩
    Gives "/repo".toList (stripped raw) d ∧ read "/repo".toList raw = [d] := by
  intro raw d
  obtain ⟨found, hfound, hread, -⟩ :=
    @read_flush_line "/repo".toList raw (by decide) (by decide) (by decide)
  have hd : read "/repo".toList raw = [d] := by decide +kernel
  have hs : found.toList = [d] := hread.symm.trans hd
  cases found with
  | none => cases hs
  | some e =>
    cases hs
    exact ⟨(hfound d).1 rfl, hd⟩

end Triage.Transcript
