import Triage.Proofs.Catalog.History
import Triage.Proofs.Catalog.Table
import Triage.Proofs.Path.Display
import Triage.Proofs.Report.Summary
import Triage.Proofs.Styled
import Triage.Report.Rules

set_option autoImplicit false

namespace Triage

/-- No escape sequence can begin in the text. -/
def Text.Inert (t : Text) : Prop := Span.escape ∉ t

namespace Text.Inert

instance (t : Text) : Decidable t.Inert := inferInstanceAs (Decidable (Span.escape ∉ t))

@[simp] theorem nil : Inert [] := by simp [Inert]

@[simp] theorem cons {c : Char} {t : Text} : Inert (c :: t) ↔ '\x1b' ≠ c ∧ Inert t := by
  simp [Inert, Span.escape]

@[simp] theorem append {s t : Text} : Inert (s ++ t) ↔ Inert s ∧ Inert t := by
  simp [Inert]

@[simp] theorem flatMap {α : Type} {l : List α} {f : α → Text} :
    Inert (l.flatMap f) ↔ ∀ a ∈ l, Inert (f a) := by
  simp [Inert]

@[simp] theorem ofNat (n : Nat) : Inert (ofNat n) := not_mem_ofNat (by decide) n

@[simp] theorem padStart {width : Nat} {t : Text} : Inert (padStart width t) ↔ Inert t := by
  have hb : Inert (List.replicate (width - t.length) ' ') := by
    intro h
    exact absurd (List.eq_of_mem_replicate h) (by decide)
  simp [Text.padStart, hb]

theorem displayed {t : Text} (h : Inert t) (base : Text) : Inert (displayed base t) :=
  not_mem_displayed (by decide) (by decide) base h

end Text.Inert

structure Diagnostic.Inert (d : Diagnostic) : Prop where
  file : ∀ file, d.file = some file → file.Inert
  message : d.message.Inert

namespace Catalog
open Text

theorem inert_headline {message t : Text} (h : Headline message t) (hm : message.Inert) :
    t.Inert := by
  obtain ⟨line, rest, rfl, -, -, ⟨before, after, rfl, -⟩, -, -⟩ := h
  simp only [Inert.append] at hm
  exact hm.1.1.2

theorem inert_ofList {l : List Char} (h : Inert l) : Inert (String.ofList l).toList := by
  rwa [String.toList_ofList]

theorem inert_bundledMessages : ∀ m ∈ bundledMessages, Inert m.2.toList := by
  simp only [bundledMessages, List.forall_mem_cons, List.not_mem_nil, String.toList_append,
    Inert.append, false_imp_iff, implies_true, and_true]
  and_intros
  all_goals exact inert_ofList (by decide)

theorem inert_bundled {code : Code} {t : Text} (h : bundled.get? code = some t) : t.Inert := by
  have hm := (MessageTable.get?_ofMembers.1 h).1.mem
  obtain ⟨m, hm, he⟩ := List.mem_map.1 hm
  rw [← (Prod.mk.inj he).1]
  exact inert_bundledMessages m hm

def Step.Inert : Step → Prop
  | .record d => d.Inert
  | .load table => ∀ t ∈ table.values, t.Inert

theorem inert_answer {steps : List Step} (h : ∀ a ∈ steps, a.Inert) {code : Code} {t : Text}
    (ht : Answers steps code (some t)) : t.Inert := by
  generalize ha : some t = answer at ht
  cases ht with
  | seen hd ht =>
    cases ha
    exact inert_headline ht (h _ (mem_recorded.1 hd.mem)).message
  | loaded hn hl ht =>
    cases ha
    exact h _ (mem_loaded.1 (List.mem_of_getLast? hl)) _
      (List.mem_map_of_mem (SortedMap.get?_eq_some_iff.1 ht))
  | bundled hn hl => exact inert_bundled ha.symm

end Catalog

namespace Report
open Styled Text

section Diagnostics
variable {ds : List Diagnostic} {d : Diagnostic}

theorem inert_codeName (c : Code) : (codeName c).Inert := by
  simp [codeName]

theorem inert_word (s : Severity) : s.word.Inert := by cases s <;> decide

theorem inert_location (h : d.Inert) (base : Text) : (location base d).plain.Inert := by
  have hf {file : Text} (hd : d.file = some file) := (h.file file hd).displayed base
  unfold location
  split
  · next file line column hd _ _ => simp [hf hd]
  · next file _ _ hd _ => simp [hf hd]
  · exact .nil

theorem inert_diagnostic (h : d.Inert) (base : Text) : (diagnostic base d).plain.Inert := by
  have hl := inert_location h base
  simp [diagnostic, hl, inert_word, inert_codeName, h.message]

theorem inert_diagnostics (h : ∀ d ∈ ds, d.Inert) (base : Text) :
    (diagnostics base ds).plain.Inert := by
  have hd : ∀ d ∈ ds, (diagnostic base d).plain.Inert := fun d hd => inert_diagnostic (h d hd) base
  simpa [diagnostics] using hd

end Diagnostics

section Summaries
variable {catalog : Catalog} {base path : Text} {s : Summary} {known : SortedSet Text}
  {message : Code → Text} (hm : ∀ code, (message code).Inert)

theorem inert_codeColumn (c : Code) : (codeColumn c).Inert := by
  simp [codeColumn, inert_codeName]

theorem inert_codeLine {front : Styled} {t : Text} (hf : front.plain.Inert) (ht : t.Inert)
    (c : Code) : (codeLine front c t).plain.Inert := by
  simp [codeLine, indent, inert_codeColumn, hf, ht]

theorem inert_countColumn (n : Nat) : (countColumn n).plain.Inert := by simp [countColumn]

include hm in
theorem inert_codeGroup (header : String) (hh : Inert header.toList) (codes : SortedMap Code Nat) :
    (codeGroup message header codes).plain.Inert := by
  unfold codeGroup
  split
  · exact .nil
  · have hl (e : Code × Nat) := inert_codeLine (inert_countColumn e.2) (hm e.1) e.1
    simp [indent, hh, hl]

include hm in
theorem inert_staleRules (t : Tally) : (staleRules message t).plain.Inert := by
  unfold staleRules
  split
  · have hfront : (plain []).Inert := .nil
    have hl (c : Code) := inert_codeLine hfront (hm c) c
    split <;> simp [indent, hl]
  · exact .nil

include hm in
theorem inert_fileDetails (hp : path.Inert) (t : Tally) :
    (fileDetails base message message path t).plain.Inert := by
  have hraised := inert_codeGroup hm "Raised diagnostics:" (by decide) t.raised
  have hignored := inert_codeGroup hm "Ignored diagnostics:" (by decide) t.ignored
  have hstale := inert_staleRules hm t
  simp [fileDetails, hp.displayed base, hraised, hignored, hstale]

theorem inert_fileLine (hp : path.Inert) (t : Tally) : (fileLine base path t).plain.Inert := by
  unfold fileLine
  split <;> simp [hp.displayed base]

theorem inert_banner : banner.plain.Inert := by simp [banner]

theorem inert_totals (s : Summary) : (totals s).plain.Inert := by simp [totals]

theorem inert_shown (hs : ∀ path ∈ s.keys, path.Inert) {e : Text × Tally} (he : e ∈ shown s known) :
    e.1.Inert := by
  apply hs
  rw [SortedMap.mem_keys, SortedMap.contains, (mem_shown.1 he).1]
  rfl

theorem inert_detailed (hm : ∀ code, (messageOf catalog code).Inert)
    (hs : ∀ path ∈ s.keys, path.Inert) : (detailed base catalog s known).plain.Inert := by
  have hf : ∀ e ∈ shown s known,
      (fileDetails base (messageOf catalog) (messageOf catalog) e.1 e.2).plain.Inert :=
    fun e he => inert_fileDetails hm (inert_shown hs he) e.2
  rw [detailed, detailedWith, plain_append, plain_append, plain_flatMap, Inert.append,
    Inert.append, Inert.flatMap]
  exact ⟨⟨inert_banner, hf⟩, inert_totals s⟩

theorem inert_terse (hs : ∀ path ∈ s.keys, path.Inert) : (terse base s known).plain.Inert := by
  have hf : ∀ e ∈ shown s known, (fileLine base e.1 e.2).plain.Inert := fun e he =>
    inert_fileLine (inert_shown hs he) e.2
  have hl : (lit "\n").plain.Inert := by simp
  rw [terse, plain_append, plain_append, plain_append, plain_flatMap, Inert.append, Inert.append,
    Inert.append, Inert.flatMap]
  exact ⟨⟨⟨inert_banner, hf⟩, hl⟩, inert_totals s⟩

end Summaries

section Rules
variable {rules : ProjectRules} {asked : SortedSet Text}

theorem inert_fileRules (r : FileRules) : (fileRules r).plain.Inert := by
  have hd : r.default.name.Inert := by cases r.default <;> decide
  have hc (c : CodeRule) : c.name.Inert := by cases c <;> decide
  simp [fileRules, indent, hd, hc, inert_codeName]

theorem inert_noRules : noRules.plain.Inert := by simp [noRules, indent]

theorem inert_rulesOf (rules : ProjectRules) (path : Text) : (rulesOf rules path).plain.Inert := by
  unfold rulesOf
  split
  · split
    · exact inert_noRules
    · exact inert_fileRules _
  · exact inert_noRules

theorem inert_rules (ha : ∀ path ∈ asked.keys, path.Inert) (base : Text) :
    (Report.rules base rules asked).plain.Inert := by
  have hp : ∀ path ∈ asked.keys, (Triage.displayed base path).Inert := fun path h =>
    (ha path h).displayed base
  simpa [Report.rules, inert_rulesOf] using hp

end Rules

theorem inert_messageOf {steps : List Catalog.Step} (h : ∀ a ∈ steps, a.Inert) (code : Code) :
    (messageOf (.run .empty steps) code).Inert := by
  obtain ⟨answer, ha⟩ := Catalog.exists_answers steps code
  rw [messageOf, ha.get?]
  cases answer with
  | none => exact Catalog.inert_ofList (by decide)
  | some t => exact Catalog.inert_answer h ha

/-- The coloured form is the plain one with escape sequences in it. -/
def Erases (s : Styled) : Prop := Span.erased (s.render true) = s.render false

theorem erases_of_inert {s : Styled} (h : s.plain.Inert) : Erases s := Styled.erased_coloured h

/-- Where no path and no message has an escape character, colour adds escape sequences to a report
and changes nothing else in it. -/
theorem renders_erase {base : Text} {ds : List Diagnostic} {steps : List Catalog.Step} {s : Summary}
    {asked : SortedSet Text} (hd : ∀ d ∈ ds, d.Inert) (hc : ∀ a ∈ steps, a.Inert)
    (hs : ∀ path ∈ s.keys, path.Inert) (ha : ∀ path ∈ asked.keys, path.Inert)
    (known : SortedSet Text) (rules : ProjectRules) :
    Erases (diagnostics base ds) ∧ Erases (detailed base (.run .empty steps) s known) ∧
      Erases (terse base s known) ∧ Erases (Report.rules base rules asked) :=
  ⟨erases_of_inert (inert_diagnostics hd base),
    erases_of_inert (inert_detailed (inert_messageOf hc) hs),
    erases_of_inert (inert_terse hs), erases_of_inert (inert_rules ha base)⟩

/-- Path and messages look like the ends of sequences. -/
theorem renders_erase_brackets :
    let file := "/r/[0m.ts".toList
    let d : Diagnostic := ⟨some file, some 1, some 2, 7, .warning, "[31m".toList⟩
    let steps : List Catalog.Step := [.load (.ofList [(8, "m".toList)]), .record d]
    let s : Summary := .ofList [(file, ⟨.ofList [(7, 12)], .ofList [(8, 1)], .ofList [9], true⟩)]
    let rules : ProjectRules := .ofList [(file, ⟨.ignore, .ofList [(9, .ignore)]⟩)]
    d.Inert ∧ (∀ a ∈ steps, a.Inert) ∧ Erases (diagnostics "/r".toList [d]) ∧
      Erases (detailed "/r".toList (.run .empty steps) s .empty) ∧
      Erases (terse "/r".toList s .empty) ∧
      Erases (Report.rules "/r".toList rules (.ofList [file])) := by
  intro file d steps s rules
  have hd : d.Inert := by
    refine ⟨fun f hf => ?_, by decide⟩
    obtain rfl := Option.some.inj hf
    decide
  have hc : ∀ a ∈ steps, a.Inert := by
    have ht : ∀ t ∈ (SortedMap.ofList [((8 : Code), "m".toList)]).values, Inert t := by decide
    exact List.forall_mem_cons.2 ⟨ht, List.forall_mem_singleton.2 hd⟩
  exact ⟨hd, hc, renders_erase (List.forall_mem_singleton.2 hd) hc (by decide) (by decide) _ _⟩

end Report
end Triage
