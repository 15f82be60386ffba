import Triage.Catalog
import Triage.Proofs.Catalog.Table
import Triage.Proofs.SortedMap

set_option autoImplicit false

/-!
A catalog over its whole history of diagnostics recorded and tables put in place. For each code it
remembers the first diagnostic, and of the tables the last one alone (`Catalog.Remembers`); so what
it answers is told from the history, in whatever order the two came (`Catalog.run_answers`).
-/

namespace Triage

namespace Text
variable {p : Char → Bool} {t u : Text}

/-- One text is the other without the characters of a class around it. -/
structure Trims (p : Char → Bool) (t u : Text) : Prop where
  around : ∃ before after, t = before ++ u ++ after ∧
    (∀ c ∈ before, p c = true) ∧ ∀ c ∈ after, p c = true
  head : u.head?.any p = false
  last : u.getLast?.any p = false

theorem head?_dropWhile (p : Char → Bool) (t : Text) : (t.dropWhile p).head?.any p = false := by
  have h := List.head?_dropWhile_not p t
  cases hd : (t.dropWhile p).head? with
  | none => rfl
  | some c =>
    rw [hd] at h
    simpa using h

theorem trims_trim (p : Char → Bool) (t : Text) : Trims p t (trim p t) := by
  obtain ⟨after, ha, ht⟩ := exists_trimEnd_append p (trimStart p t)
  refine ⟨⟨t.takeWhile p, after, ?_, List.all_eq_true.1 List.all_takeWhile, ha⟩, ?_, ?_⟩
  · rw [List.append_assoc, trim, ← ht, trimStart, List.takeWhile_append_dropWhile]
  · have hd : (trimStart p t).head?.any p = false := head?_dropWhile p t
    cases hu : trimEnd p (trimStart p t) with
    | nil => simp [trim, hu]
    | cons c r =>
      rw [ht, hu] at hd
      simpa [trim, hu] using hd
  · rw [trim, trimEnd, List.getLast?_reverse]
    exact head?_dropWhile p _

theorem trims_iff : Trims p t u ↔ trim p t = u := by
  refine ⟨fun h => ?_, fun h => h ▸ trims_trim p t⟩
  obtain ⟨before, after, rfl, hb, ha⟩ := h.around
  have hs : trimStart p (before ++ u ++ after) = trimStart p (u ++ after) := by
    rw [List.append_assoc, trimStart, List.dropWhile_append_of_pos hb, trimStart]
  rw [trim, hs]
  cases u with
  | nil =>
    have hn : (after ++ []).dropWhile p = [] := List.dropWhile_append_of_pos ha
    rw [List.append_nil] at hn
    simp [trimStart, trimEnd, hn]
  | cons c r =>
    have hc : p c = false := by simpa using h.head
    have hk : trimStart p (c :: r ++ after) = c :: r ++ after := by simp [trimStart, hc]
    rw [hk, trimEnd_append ha, trimEnd_of_getLast h.last]

end Text

namespace Catalog

/-- The first line of a message, up to a line feed if there is one, without the blanks around it. -/
def Headline (message t : Text) : Prop :=
  ∃ line rest, message = line ++ rest ∧ '\n' ∉ line ∧ (rest = [] ∨ rest.head? = some '\n') ∧
    Text.Trims Text.isBlank line t

theorem headline_iff {message t : Text} : Headline message t ↔ headline message = t := by
  constructor
  · rintro ⟨line, rest, rfl, hline, hrest, ht⟩
    have hl : ∀ c ∈ line, decide (c ≠ '\n') = true := fun c hc =>
      decide_eq_true fun e => hline (e ▸ hc)
    have hr : rest.head?.any (fun c => decide (c ≠ '\n')) = false := by
      rcases hrest with rfl | hr
      · rfl
      · simp [hr]
    rw [headline, (Text.run_append hl hr).1]
    exact Text.trims_iff.1 ht
  · rintro rfl
    refine ⟨_, message.dropWhile (· ≠ '\n'), List.takeWhile_append_dropWhile.symm, ?_, ?_,
      Text.trims_trim _ _⟩
    · intro h
      have hn := List.all_eq_true.1 (List.all_takeWhile (p := (· ≠ '\n'))) _ h
      simp at hn
    · have hd := Text.head?_dropWhile (· ≠ '\n') message
      cases hm : message.dropWhile (· ≠ '\n') with
      | nil => exact .inl rfl
      | cons c r =>
        rw [hm] at hd
        exact .inr (by simpa using hd)

end Catalog

/-- The first of several diagnostics with a code. -/
def Diagnostic.FirstOf (ds : List Diagnostic) (code : Code) (d : Diagnostic) : Prop :=
  ∃ before after, ds = before ++ d :: after ∧ d.code = code ∧ ∀ e ∈ before, e.code ≠ code

namespace Diagnostic
variable {ds : List Diagnostic} {code : Code} {d : Diagnostic}

theorem firstOf_iff : FirstOf ds code d ↔ ds.find? (·.code = code) = some d := by
  simp only [FirstOf, List.find?_eq_some_iff_append, decide_eq_true_eq, Bool.not_eq_true',
    decide_eq_false_iff_not]
  constructor
  · rintro ⟨before, after, h, hd, hb⟩
    exact ⟨hd, before, after, h, hb⟩
  · rintro ⟨hd, before, after, h, hb⟩
    exact ⟨before, after, h, hd, hb⟩

theorem exists_firstOf (h : ∃ d ∈ ds, d.code = code) : ∃ d, FirstOf ds code d := by
  simp only [firstOf_iff, ← Option.isSome_iff_exists, List.find?_isSome, decide_eq_true_eq]
  exact h

theorem FirstOf.mem (h : FirstOf ds code d) : d ∈ ds := by
  obtain ⟨before, after, rfl, -⟩ := h
  simp

theorem FirstOf.append (h : FirstOf ds code d) (more : List Diagnostic) :
    FirstOf (ds ++ more) code d := by
  obtain ⟨before, after, rfl, hd, hb⟩ := h
  exact ⟨before, after ++ more, by simp, hd, hb⟩

end Diagnostic

namespace Catalog

inductive Step where
  | record (d : Diagnostic)
  | load (table : MessageTable)

def step (c : Catalog) : Step → Catalog
  | .record d => c.record d
  | .load table => c.withTable table

def run (c : Catalog) (steps : List Step) : Catalog := steps.foldl step c

def recorded : List Step → List Diagnostic
  | [] => []
  | .record d :: r => d :: recorded r
  | .load _ :: r => recorded r

def loaded : List Step → List MessageTable
  | [] => []
  | .record _ :: r => loaded r
  | .load table :: r => table :: loaded r

theorem mem_recorded {steps : List Step} {d : Diagnostic} :
    d ∈ recorded steps ↔ .record d ∈ steps := by
  induction steps with
  | nil => simp [recorded]
  | cons a steps ih => cases a <;> simp [recorded, ih]

theorem mem_loaded {steps : List Step} {table : MessageTable} :
    table ∈ loaded steps ↔ .load table ∈ steps := by
  induction steps with
  | nil => simp [loaded]
  | cons a steps ih => cases a <;> simp [loaded, ih]

theorem recorded_append (s r : List Step) : recorded (s ++ r) = recorded s ++ recorded r := by
  induction s with
  | nil => rfl
  | cons a s ih => cases a <;> simp [recorded, ih]

theorem loaded_append (s r : List Step) : loaded (s ++ r) = loaded s ++ loaded r := by
  induction s with
  | nil => rfl
  | cons a s ih => cases a <;> simp [loaded, ih]

theorem get?_eq (c : Catalog) (code : Code) : c.get? code =
    (c.seen.get? code).or ((c.table.get? code).or (bundled.get? code)) := by
  unfold get?
  generalize bundled.get? code = b
  cases c.seen.get? code <;> cases c.table.get? code <;> rfl

/-- What is left of a history in a catalog. -/
structure Remembers (ds : List Diagnostic) (tables : List MessageTable) (c : Catalog) : Prop where
  seen : ∀ code, c.seen.get? code = (ds.find? (·.code = code)).map (headline ·.message)
  table : c.table = tables.getLast?.getD .empty

section Histories
variable {ds : List Diagnostic} {tables : List MessageTable} {c : Catalog}

theorem Remembers.empty : Remembers [] [] empty := ⟨fun _ => rfl, rfl⟩

theorem Remembers.record (h : Remembers ds tables c) (d : Diagnostic) :
    Remembers (ds ++ [d]) tables (c.record d) where
  seen code := by
    have hs := SortedMap.get?_foldl_insertNew Diagnostic.code (headline ·.message) [d] c.seen code
    rw [List.find?_append, Option.map_or, ← h.seen]
    exact hs
  table := h.table

theorem Remembers.load (h : Remembers ds tables c) (table : MessageTable) :
    Remembers ds (tables ++ [table]) (c.withTable table) where
  seen := h.seen
  table := by simp [withTable]

theorem Remembers.step (h : Remembers ds tables c) (a : Step) :
    Remembers (ds ++ recorded [a]) (tables ++ loaded [a]) (c.step a) := by
  cases a with
  | record d => simpa [recorded, loaded, Catalog.step] using h.record d
  | load table => simpa [recorded, loaded, Catalog.step] using h.load table

theorem Remembers.run (h : Remembers ds tables c) (steps : List Step) :
    Remembers (ds ++ recorded steps) (tables ++ loaded steps) (c.run steps) := by
  induction steps generalizing c ds tables with
  | nil => simpa [recorded, loaded, Catalog.run] using h
  | cons a steps ih =>
    have hr := ih (h.step a)
    rwa [List.append_assoc, ← recorded_append, List.append_assoc, ← loaded_append] at hr

theorem remembers_ofDiagnostics (ds : List Diagnostic) : Remembers ds [] (ofDiagnostics ds) := by
  induction ds using List.reverseRecOn with
  | nil => exact .empty
  | append_singleton ds d ih => simpa [ofDiagnostics] using ih.record d

theorem Remembers.get?_first (h : Remembers ds tables c) {code : Code} {d : Diagnostic}
    (hd : d.FirstOf ds code) : c.get? code = some (headline d.message) := by
  rw [get?_eq, h.seen, Diagnostic.firstOf_iff.1 hd, Option.map_some, Option.some_or]

theorem remembers_run (steps : List Step) :
    Remembers (recorded steps) (loaded steps) (run .empty steps) := by
  simpa using Remembers.empty.run steps

end Histories

/-- What a history says of a code: the first diagnostic recorded with it, else the last table
loaded, else the bundled messages. -/
inductive Answers (steps : List Step) (code : Code) : Option Text → Prop
  | seen {d : Diagnostic} {t : Text} (hd : d.FirstOf (recorded steps) code)
      (ht : Headline d.message t) : Answers steps code (some t)
  | loaded {table : MessageTable} {t : Text} (hn : ∀ d ∈ recorded steps, d.code ≠ code)
      (hl : (loaded steps).getLast? = some table) (ht : table.get? code = some t) :
      Answers steps code (some t)
  | bundled (hn : ∀ d ∈ recorded steps, d.code ≠ code)
      (hl : ∀ table, (loaded steps).getLast? = some table → table.get? code = none) :
      Answers steps code (bundled.get? code)

theorem get?_bundled_identifier : bundled.get? 1003 = some "Identifier expected.".toList := by
  let member (m : Code × String) : Text × Code := (m.2.toList, m.1)
  have honly : ∀ m ∈ bundledMessages, m.1 = 1003 → m.2 = "Identifier expected." := by decide
  have hlast : ∀ m ∈ bundledMessages.drop 2, m.2 ≠ "Identifier expected." := by decide
  refine MessageTable.get?_ofMembers.2 ⟨⟨(bundledMessages.take 1).map member,
    (bundledMessages.drop 2).map member, rfl, fun e he => ?_⟩, fun other ho hne => absurd ?_ hne⟩
  · obtain ⟨m, hm, rfl⟩ := List.mem_map.1 he
    exact fun h => hlast m hm (String.toList_inj.1 h)
  · obtain ⟨m, hm, h⟩ := List.mem_map.1 ho.mem
    rw [Prod.mk.injEq] at h
    rw [← h.1, honly m hm h.2]

section Answers
variable {steps : List Step} {code : Code}

theorem get?_seen_eq_none (hn : ∀ d ∈ recorded steps, d.code ≠ code) :
    (run .empty steps).seen.get? code = none := by
  have hf : (recorded steps).find? (·.code = code) = none := by simpa using hn
  rw [(remembers_run steps).seen, hf]
  rfl

theorem Answers.get? {answer : Option Text} (h : Answers steps code answer) :
    (run .empty steps).get? code = answer := by
  have hr := remembers_run steps
  cases h with
  | seen hd ht => rw [hr.get?_first hd, headline_iff.1 ht]
  | loaded hn hl ht =>
    rw [get?_eq, get?_seen_eq_none hn, hr.table, hl, Option.getD_some, ht, Option.none_or,
      Option.some_or]
  | bundled hn hl =>
    have ht : (run .empty steps).table.get? code = none := by
      rw [hr.table]
      cases h : (Catalog.loaded steps).getLast? with
      | none => rfl
      | some table => exact hl table h
    rw [get?_eq, get?_seen_eq_none hn, ht, Option.none_or, Option.none_or]

theorem exists_answers (steps : List Step) (code : Code) : ∃ answer, Answers steps code answer := by
  by_cases hs : ∃ d ∈ recorded steps, d.code = code
  · obtain ⟨d, hd⟩ := Diagnostic.exists_firstOf hs
    exact ⟨_, .seen hd (headline_iff.2 rfl)⟩
  · have hn : ∀ d ∈ recorded steps, d.code ≠ code := fun d hd hc => hs ⟨d, hd, hc⟩
    by_cases hl : ∃ table t, (loaded steps).getLast? = some table ∧ table.get? code = some t
    · obtain ⟨table, t, hl, ht⟩ := hl
      exact ⟨_, .loaded hn hl ht⟩
    · refine ⟨_, .bundled hn fun table ht => ?_⟩
      cases hc : table.get? code with
      | none => rfl
      | some t => exact absurd ⟨table, t, ht, hc⟩ hl

end Answers

/-- What a catalog answers at any time is told from its history, and no later step changes what it
answers on a code that was recorded. -/
theorem run_answers (steps : List Step) (code : Code) :
    (∀ answer, (run .empty steps).get? code = answer ↔ Answers steps code answer) ∧
    ∀ more, (∃ d ∈ recorded steps, d.code = code) →
      (run .empty (steps ++ more)).get? code = (run .empty steps).get? code := by
  constructor
  · intro answer
    refine ⟨?_, Answers.get?⟩
    rintro rfl
    obtain ⟨answer, h⟩ := exists_answers steps code
    rw [h.get?]
    exact h
  · intro more hs
    obtain ⟨d, hd⟩ := Diagnostic.exists_firstOf hs
    have hm : d.FirstOf (recorded (steps ++ more)) code := by
      rw [recorded_append]
      exact hd.append _
    rw [(remembers_run _).get?_first hm, (remembers_run _).get?_first hd]

/-- A blank first line hides the messages of the table before it and of the diagnostic behind it; of
two tables the second is left, and has nothing where a message is bundled. -/
theorem run_answers_blank_line :
    let d : Diagnostic := ⟨none, none, none, 7, .error, " \r\nmore".toList⟩
    let table : MessageTable := .ofList [(7, "seven".toList), (1003, "mine".toList)]
    let steps : List Step := [.load table, .record d]
    let more : List Step := [.record { d with message := "again".toList }, .load .empty]
    (∃ e ∈ recorded steps, e.code = 7) ∧ (run .empty (steps ++ more)).get? 7 = some [] ∧
      (run .empty steps).get? 1003 = some "mine".toList ∧
      (run .empty (steps ++ more)).get? 1003 = some "Identifier expected.".toList := by
  intro d table steps more
  have hs : ∃ e ∈ recorded steps, e.code = 7 := ⟨d, by simp [steps, recorded], rfl⟩
  have hf : d.FirstOf (recorded steps) 7 := ⟨[], [], rfl, rfl, by simp⟩
  have ht : Headline d.message [] := headline_iff.2 (by decide)
  refine ⟨hs, ?_, ?_, ?_⟩
  · have h := ((run_answers steps 7).1 _).2 (.seen hf ht)
    exact ((run_answers steps 7).2 more hs).trans h
  · have hl : (loaded steps).getLast? = some table := by simp [steps, loaded]
    exact ((run_answers steps 1003).1 _).2 (.loaded (by simp [steps, recorded, d]) hl (by decide))
  · rw [← get?_bundled_identifier]
    refine ((run_answers (steps ++ more) 1003).1 _).2 (.bundled ?_ ?_)
    · simp [steps, more, recorded, d]
    · simp [steps, more, loaded]

end Catalog
end Triage
