import Mathlib
import Triage.Proofs.Report.Ranking
import Triage.Proofs.Report.Summary
import Triage.Proofs.Text.ByteOrder

set_option autoImplicit false

namespace Triage

theorem SortedMap.size_eq {κ ν : Type} [LT κ] (m : SortedMap κ ν) : m.size = m.keys.length := by
  simp [size, keys]

theorem SortedMap.size_pos_iff {κ ν : Type} [LT κ] [DecidableEq κ] [KeyOrder κ]
    {m : SortedMap κ ν} : 0 < m.size ↔ ∃ k, m.contains k = true := by
  simp only [size_eq, List.length_pos_iff_exists_mem, mem_keys]

theorem SortedMap.isEmpty_eq_false_iff {κ ν : Type} [LT κ] [DecidableEq κ] [KeyOrder κ]
    {m : SortedMap κ ν} : m.isEmpty = false ↔ ∃ k, m.contains k = true := by
  rw [← size_pos_iff]
  simp [isEmpty, size, List.length_pos_iff]

theorem total_eq_sum {α : Type} (f : α → Nat) (l : List α) : total f l = (l.map f).sum := by
  induction l with
  | nil => rfl
  | cons a l ih => simp [total, ih]

theorem total_filter {α : Type} {f : α → Nat} {p : α → Bool} {l : List α}
    (h : ∀ a ∈ l, p a = false → f a = 0) : total f (l.filter p) = total f l := by
  induction l with
  | nil => rfl
  | cons a l ih =>
    have ih := ih fun b hb => h b (by simp [hb])
    cases hp : p a with
    | true => simp [total, hp, ih]
    | false => simp [total, hp, ih, h a (by simp) hp]

namespace Tally
variable {t : Tally}

/-- A code was raised or ignored in the file, or a rule of it took no effect. -/
def HasNews (t : Tally) : Prop :=
  (∃ c, t.raised.contains c = true) ∨ (∃ c, t.ignored.contains c = true) ∨
    (∃ c, t.stale.contains c = true) ∨ t.staleDefault = true

theorem hasStale_iff :
    t.hasStale = true ↔ (∃ c, t.stale.contains c = true) ∨ t.staleDefault = true := by
  rw [← SortedMap.size_pos_iff]
  cases hd : t.staleDefault <;> simp [hasStale, staleTotal, hd]

theorem isReportable_iff : t.isReportable = true ↔ t.HasNews := by
  simp only [isReportable, HasNews, Bool.or_eq_true, Bool.not_eq_true',
    SortedMap.isEmpty_eq_false_iff, hasStale_iff, or_assoc, or_left_comm]

theorem totals_unreportable (h : t.isReportable = false) :
    t.raisedTotal = 0 ∧ t.ignoredTotal = 0 ∧ t.staleTotal = 0 := by
  simp only [isReportable, Bool.or_eq_false_iff, Bool.not_eq_false', SortedMap.isEmpty,
    List.isEmpty_iff] at h
  obtain ⟨⟨hi, hr⟩, hs⟩ := h
  refine ⟨?_, ?_, ?_⟩
  · simp [raisedTotal, SortedMap.values, hr, total]
  · simp [ignoredTotal, SortedMap.values, hi, total]
  · simpa [hasStale] using hs

end Tally

structure Figures where
  raised : Nat
  ignored : Nat
  rules : Nat

namespace Figures

def ofTally (t : Tally) : Figures where
  raised := (t.raised.entries.map Prod.snd).sum % 2 ^ 64
  ignored := (t.ignored.entries.map Prod.snd).sum % 2 ^ 64
  rules := (t.stale.keys.length + if t.staleDefault then 1 else 0) % 2 ^ 64

def sum (l : List Figures) : Figures where
  raised := (l.map raised).sum % 2 ^ 64
  ignored := (l.map ignored).sum % 2 ^ 64
  rules := (l.map rules).sum % 2 ^ 64

def ofFiles (files : List (Text × Tally)) : Figures := sum (files.map fun e => ofTally e.2)

def lineText (path : Text) (g : Figures) : Text :=
  path ++ "  raised ".toList ++ Text.ofNat g.raised ++ "  ignored ".toList ++
    Text.ofNat g.ignored ++ "  stale rules ".toList ++ Text.ofNat g.rules ++ "\n".toList

def sumText (g : Figures) : Text :=
  "Raised: ".toList ++ Text.ofNat g.raised ++ " │ Ignored: ".toList ++ Text.ofNat g.ignored ++
    " │ Unnecessary rules: ".toList ++ Text.ofNat g.rules ++ "\n".toList

def toJson (files : Nat) (g : Figures) : Json :=
  .record [("files", .ofNat files), ("raised", .ofNat g.raised), ("ignored", .ofNat g.ignored),
    ("unnecessary_rules", .ofNat g.rules)]

end Figures

namespace Report
open Styled

/-- A code with its count in front, and some message. -/
def CountLine (e : Code × Nat) (line : Text) : Prop :=
  ∃ message : Text, line = "        ".toList ++ Text.padStart 4 (Text.ofNat e.2 ++ ['x']) ++
    Text.padStart 8 (codeName e.1) ++ ": ".toList ++ message ++ ['\n']

def RuleLine (c : Code) (line : Text) : Prop :=
  ∃ message : Text, line =
    "        ".toList ++ Text.padStart 8 (codeName c) ++ ": ".toList ++ message ++ ['\n']

def defaultLine : Text :=
  "        All (all diagnostics are ignored, but none were raised by this file)\n".toList

/-- Each code of the map has its line, in whatever order. -/
def ShowsCounts (m : SortedMap Code Nat) (lines : List Text) : Prop :=
  ∃ l : List (Code × Nat), l.Perm m.entries ∧ List.Forall₂ CountLine l lines

def ShowsRules (t : Tally) (lines : List Text) : Prop :=
  ∃ ofCodes : List Text, List.Forall₂ RuleLine t.stale.keys ofCodes ∧
    lines = (if t.staleDefault then [defaultLine] else []) ++ ofCodes

/-- Lines below a heading, which stands only where there are any. -/
def headed (heading : String) (lines : List Text) : Text :=
  if lines = [] then [] else "    ".toList ++ heading.toList ++ ['\n'] ++ lines.flatten

/-- A file in detail: its path as it is displayed, all that was counted, and an empty line. -/
inductive Block (base : Text) : Text × Tally → Text → Prop
  | intro {path : Text} {t : Tally} {raised ignored rules : List Text}
    (hraised : ShowsCounts t.raised raised) (hignored : ShowsCounts t.ignored ignored)
    (hrules : ShowsRules t rules) :
    Block base (path, t) (displayed base path ++ ['\n'] ++
      headed "Raised diagnostics:" raised ++ headed "Ignored diagnostics:" ignored ++
      headed "Unnecessary ignore rules:" rules ++ ['\n'])

def TerseLine (base : Text) (e : Text × Tally) (line : Text) : Prop :=
  line = (Figures.ofTally e.2).lineText (displayed base e.1)

def countsJson (m : SortedMap Code Nat) : Json :=
  .object (m.entries.map fun e => (Text.ofNat e.1.toNat, .ofNat e.2))

def fileJson (t : Tally) : Json :=
  .record [("raised_codes", countsJson t.raised), ("ignored_codes", countsJson t.ignored),
    ("unnecessarily_filtered_codes", .array (t.stale.keys.map fun c => .ofNat c.toNat)),
    ("unnecessary_catchall_filter", .bool t.staleDefault)]

section Figures
variable {f : Tally → Nat} {g : Figures → Nat} (s : Summary)

theorem total_shown (hzero : ∀ t, t.isReportable = false → f t = 0) :
    total f s.values = total (fun e => f e.2) s.reportable.entries := by
  rw [SortedMap.values, total_eq_sum, List.map_map, ← Function.comp_def f Prod.snd, ← total_eq_sum]
  exact (total_filter fun e _ he => hzero e.2 he).symm

/-- A sum over a run leaves out nothing but zeros when it is taken over the files shown, and it does
not matter that the sum of each file wraps around before. -/
theorem figure_total (hzero : ∀ t, t.isReportable = false → f t = 0)
    (hfile : ∀ t, figure (f t) = g (.ofTally t)) : figure (total f s.values) =
      ((s.reportable.entries.map fun e => Figures.ofTally e.2).map g).sum % 2 ^ 64 := by
  rw [total_shown s hzero, total_eq_sum, figure, List.sum_nat_mod, List.map_map, List.map_map]
  have he (e : Text × Tally) : f e.2 % UInt64.size = g (.ofTally e.2) := hfile e.2
  simp only [Function.comp_def, he]
  rfl

theorem figure_counts (m : SortedMap Code Nat) :
    figure (total id m.values) = (m.entries.map Prod.snd).sum % 2 ^ 64 := by
  rw [total_eq_sum, List.map_id]
  rfl

theorem figure_staleTotal (t : Tally) : figure t.staleTotal = (Figures.ofTally t).rules := by
  have hs : t.staleTotal = t.stale.keys.length + if t.staleDefault then 1 else 0 := by
    rw [Tally.staleTotal, SortedMap.size_eq]
    cases t.staleDefault <;> rfl
  rw [figure, hs]
  rfl

theorem figure_raised : figure s.raisedTotal = (Figures.ofFiles s.reportable.entries).raised :=
  figure_total s (fun _ h => (Tally.totals_unreportable h).1) fun t => figure_counts t.raised

theorem figure_ignored : figure s.ignoredTotal = (Figures.ofFiles s.reportable.entries).ignored :=
  figure_total s (fun _ h => (Tally.totals_unreportable h).2.1) fun t => figure_counts t.ignored

theorem figure_rules : figure s.staleTotal = (Figures.ofFiles s.reportable.entries).rules :=
  figure_total s (fun _ h => (Tally.totals_unreportable h).2.2) figure_staleTotal

theorem plain_totals : (totals s).plain = (Figures.ofFiles s.reportable.entries).sumText := by
  rw [totals, figure_raised, figure_ignored, figure_rules]
  simp only [plain_append, plain_lit, plain_inStyle]
  rfl

end Figures

section Files
variable (message : Code → Text) (header : String) (base path : Text) (t : Tally)

theorem plain_codeLine (front : Styled) (c : Code) (said : Text) :
    (codeLine front c said).plain = "        ".toList ++ front.plain ++
      Text.padStart 8 (codeName c) ++ ": ".toList ++ said ++ ['\n'] := by
  simp [codeLine, codeColumn, indent]

theorem plain_codeGroup (codes : SortedMap Code Nat) :
    ∃ lines, ShowsCounts codes lines ∧
      (codeGroup message header codes).plain = headed header lines := by
  refine ⟨(ranked codes).map fun e => (codeLine (countColumn e.2) e.1 (message e.1)).plain,
    ⟨ranked codes, ranked_perm codes, ?_⟩, ?_⟩
  · rw [List.forall₂_map_right_iff, List.forall₂_same]
    intro e _
    exact ⟨message e.1, by rw [plain_codeLine, countColumn, plain_inStyle]⟩
  · have hnil : ranked codes = [] ↔ codes.isEmpty = true := by
      rw [SortedMap.isEmpty, List.isEmpty_iff, ← List.length_eq_zero_iff,
        (ranked_perm codes).length_eq, List.length_eq_zero_iff]
    simp only [codeGroup, headed, List.map_eq_nil_iff, hnil]
    split
    · rfl
    · rw [plain_append, plain_flatMap, plain_text, List.flatMap_def]
      rfl

theorem plain_defaultLine :
    (text (indent ++ indent ++ "All ".toList) ++ inStyle .dimmed
      "(all diagnostics are ignored, but none were raised by this file)".toList ++
      lit "\n").plain = defaultLine := by
  rw [plain_append, plain_append, plain_text, plain_inStyle, plain_lit]
  decide +kernel

theorem plain_staleRules :
    ∃ lines, ShowsRules t lines ∧
      (staleRules message t).plain = headed "Unnecessary ignore rules:" lines := by
  let ofCodes := t.stale.keys.map fun c => (codeLine [] c (message c)).plain
  refine ⟨(if t.staleDefault then [defaultLine] else []) ++ ofCodes, ⟨ofCodes, ?_, rfl⟩, ?_⟩
  · rw [List.forall₂_map_right_iff, List.forall₂_same]
    intro c _
    exact ⟨message c, by simp [plain_codeLine]⟩
  · have hnil : (if t.staleDefault then [defaultLine] else []) ++ ofCodes = [] ↔
        ¬ t.hasStale = true := by
      rw [List.append_eq_nil_iff, List.map_eq_nil_iff, Tally.hasStale, Tally.staleTotal,
        SortedMap.size_eq]
      cases t.staleDefault <;> simp
    simp only [staleRules, headed, hnil, ite_not]
    split
    · have heading : indent ++ "Unnecessary ignore rules:\n".toList =
          "    ".toList ++ "Unnecessary ignore rules:".toList ++ ['\n'] := by decide +kernel
      rw [plain_append, plain_append, plain_text, plain_flatMap, heading, apply_ite plain,
        plain_defaultLine, List.flatten_append, List.flatMap_def]
      cases t.staleDefault <;> simp [ofCodes]
    · rfl

theorem block_fileDetails :
    Block base (path, t) (fileDetails base message message path t).plain := by
  obtain ⟨raised, hraised, hr⟩ := plain_codeGroup message "Raised diagnostics:" t.raised
  obtain ⟨ignored, hignored, hi⟩ := plain_codeGroup message "Ignored diagnostics:" t.ignored
  obtain ⟨rules, hrules, hs⟩ := plain_staleRules message t
  have hb : Block base (path, t) _ := .intro hraised hignored hrules
  simpa [fileDetails, hr, hi, hs] using hb

theorem line_fileLine : TerseLine base (path, t) (fileLine base path t).plain := by
  have hrules : (if t.hasStale then inStyle (.boldHue .red) (Text.ofNat (figure t.staleTotal))
      else lit "0").plain = Text.ofNat (figure t.staleTotal) := by
    split
    · rw [plain_inStyle]
    · next h =>
      have hz : t.staleTotal = 0 := by simpa [Tally.hasStale] using h
      rw [hz]
      rfl
  have hraised : figure t.raisedTotal = (Figures.ofTally t).raised := figure_counts t.raised
  have hignored : figure t.ignoredTotal = (Figures.ofTally t).ignored := figure_counts t.ignored
  rw [TerseLine, Figures.lineText, ← hraised, ← hignored, ← figure_staleTotal, ← hrules]
  simp only [fileLine, plain_append, plain_lit, plain_inStyle]

end Files

end Report
end Triage
