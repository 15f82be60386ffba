import Triage.Toml.Quoted
import Triage.Proofs.Json.Quoted

set_option autoImplicit false

namespace Triage.Toml

variable {c q : Char} {s t r : Text}

@[simp] theorem prepend_some (c : Char) (t r : Text) :
    prepend (some c) (some (t, r)) = some (c :: t, r) := rfl

/-- The ways to write a character between double quotes: behind a backslash, by its number, or as
it is. -/
inductive Spells : Text → Char → Prop
  | escape {c e : Char} (h : plainEscape? e = some c) : Spells ['\\', e] c
  | number {c : Char} (h : c.toNat < 0x80) : Spells ('\\' :: 'u' :: Text.hexFour true c.toNat) c
  | plain {c : Char} (hb : c ≠ '\\') (hq : c ≠ '"') (h : isPlain c = true) : Spells [c] c

theorem plainEscape?_some {e : Char} (h : plainEscape? e = some c) :
    e ≠ 'u' ∧ e ≠ 'U' ∧ isGap e = false ∧ e ≠ '\n' ∧ e ≠ '\r' := by
  have hne : ∀ d : Char, plainEscape? d = none → e ≠ d := by
    rintro d hd rfl
    simp [hd] at h
  have hg : isGap e = false := by
    simp [isGap, hne ' ' (by decide), hne '\t' (by decide)]
  exact ⟨hne _ (by decide), hne _ (by decide), hg, hne _ (by decide), hne _ (by decide)⟩

theorem isPlain_ne (h : isPlain c = true) : c ≠ '\n' ∧ c ≠ '\r' := by
  constructor <;> (rintro rfl; exact absurd h (by decide))

theorem numbered?_hexFour (h : c.toNat < 0x80) :
    numbered? (Text.hexFour true c.toNat) = some c := by
  have hx (k : Nat) := Text.isHex_hexDigit true (Nat.mod_lt k (by decide : 0 < 16))
  have hall : (Text.hexFour true c.toNat).all Text.isHex = true := by simp [Text.hexFour, hx]
  have hn : Text.hexNumber (Text.hexFour true c.toNat) = c.toNat :=
    Text.hexNumber_hexFour true (by omega)
  have hc : c.toNat < 0xD800 := by omega
  simp [numbered?, hall, hn, Text.charOf?, hc]

theorem takeBasic_spells (h : Spells s c) (r : Text) :
    takeBasic (s ++ r) = prepend (some c) (takeBasic r) := by
  cases h with
  | escape h =>
    obtain ⟨hu, hU, -⟩ := plainEscape?_some h
    simp [takeBasic, h, hu, hU]
  | number h => exact congrArg (prepend · _) (numbered?_hexFour h)
  | plain hb hq h => simp [takeBasic, hb, h]

theorem takeMulti_spells (h : Spells s c) (r : Text) :
    takeMulti false (s ++ r) = prepend (some c) (takeMulti false r) := by
  cases h with
  | @escape _ e h =>
    obtain ⟨hu, hU, hg, hn, hr⟩ := plainEscape?_some h
    have he : endsLine (e :: r) = false := by simp [endsLine, hg, hn, hr]
    simp [takeMulti, h, hu, hU, he]
  | number h => exact congrArg (prepend · _) (numbered?_hexFour h)
  | plain hb hq h =>
    simp [takeMulti, hb, hq, h, (isPlain_ne h).2]

/-- Quotes and, over several lines, line ends apart, every character is spelled by itself. -/
theorem spells_escapeIn (multi : Bool) (hq : c ≠ '"') (hn : multi = true → c ≠ '\n') :
    Spells (escapeIn multi 0 [c]) c := by
  simp only [escapeIn, if_neg hq, List.append_nil]
  split
  · next h => exact .escape (by simp [h, plainEscape?])
  split
  · next h =>
    cases multi with
    | false => exact .escape (by simp [h, plainEscape?])
    | true => exact absurd h (hn rfl)
  split
  · next h => exact .escape (by simp [h, plainEscape?])
  split
  · next h => exact .escape (by simp [h, plainEscape?])
  split
  · next h => exact .escape (by simp [h, plainEscape?])
  split
  · next h => exact .escape (by simp [h, plainEscape?])
  split
  · next h => exact .number (by omega)
  · next hb _ _ _ _ _ h =>
    have hp : isPlain c = true := by
      simp only [isPlain, Bool.or_eq_true, Bool.and_eq_true, decide_eq_true_eq]
      omega
    exact .plain hb hq hp

theorem escapeIn_cons (multi : Bool) (run : Nat) (hq : c ≠ '"') (t : Text) :
    escapeIn multi run (c :: t) = escapeIn multi 0 [c] ++ escapeIn multi 0 t := by
  simp [escapeIn, hq]

theorem takeBasic_escapeIn (t r : Text) :
    takeBasic (escapeIn false 0 t ++ '"' :: r) = some (t, r) := by
  induction t with
  | nil => rfl
  | cons c t ih =>
    by_cases hq : c = '"'
    · subst hq
      exact (takeBasic_spells (.escape rfl) _).trans (congrArg (prepend _) ih)
    · rw [escapeIn_cons false 0 hq, List.append_assoc,
        takeBasic_spells (spells_escapeIn false hq (by simp)), ih, prepend_some]

theorem takeLiteral_append (ht : ∀ c ∈ t, isPlain c = true ∧ c ≠ '\'') (r : Text) :
    takeLiteral (t ++ '\'' :: r) = some (t, r) := by
  induction t with
  | nil => rfl
  | cons c t ih =>
    obtain ⟨hp, hq⟩ := ht c (by simp)
    simp [takeLiteral, hp, ih fun d hd => ht d (by simp [hd])]

section Tripled
variable {F : Text → Option (Text × Text)} {run : Nat}

/-- How a reader takes quotes that stand for themselves until three of them meet. -/
structure Tripled (q : Char) (F : Text → Option (Text × Text)) : Prop where
  close : ∀ r, F (q :: q :: q :: r) = some (closing q r)
  quote : ∀ r, (∀ r', r ≠ q :: q :: r') → F (q :: r) = prepend (some q) (F r)

theorem tripled_takeMulti : Tripled '"' (takeMulti false) where
  close r := by simp [takeMulti]
  quote r h := by
    rw [takeMulti]
    · rfl
    all_goals simp_all

theorem tripled_takeMultiLiteral : Tripled '\'' takeMultiLiteral where
  close r := by simp [takeMultiLiteral]
  quote r h := by
    rw [takeMultiLiteral]
    · rfl
    all_goals simp_all

/-- What stands between tripled quotes for a text, behind so many quotes: a quote for a quote, at
most two in a row, and for any other character what the reader takes for it. -/
inductive Body (q : Char) (F : Text → Option (Text × Text)) : Nat → Text → Text → Prop
  | nil {run : Nat} (h : run ≤ 2) : Body q F run [] []
  | quote {run : Nat} {s t : Text} (h : Body q F (run + 1) s t) : Body q F run (q :: s) (q :: t)
  | char {run : Nat} {a s t : Text} {c : Char} (hrun : run ≤ 2) (ha : ∃ d ∈ a.head?, d ≠ q)
      (hF : ∀ r, F (a ++ r) = prepend (some c) (F r)) (h : Body q F 0 s t) :
      Body q F run (a ++ s) (c :: t)

theorem closing_append (hrun : run ≤ 2) (hr : r.head? ≠ some q) :
    closing q (List.replicate run q ++ r) = (List.replicate run q, r) := by
  match run, r with
  | 0, [] | 1, [] | 2, _ => simp [closing, List.replicate_succ]
  | 0, [c] | 0, c :: _ :: _ | 1, c :: _ =>
    have hc : c ≠ q := fun e => hr (by simp [e])
    simp [closing, hc]

theorem Tripled.take_closing (hF : Tripled q F) (hrun : run ≤ 2) (hr : r.head? ≠ some q) :
    F (List.replicate run q ++ q :: q :: q :: r) = some (List.replicate run q, r) := by
  have hs : List.replicate run q ++ q :: q :: q :: r =
      q :: q :: q :: (List.replicate run q ++ r) := by
    match run with
    | 0 | 1 | 2 => rfl
  rw [hs, hF.close, closing_append hrun hr]

theorem Tripled.take_quotes (hF : Tripled q F) (hrun : run ≤ 2) {d : Char} (hd : d ≠ q)
    (h : F (d :: s) = some (t, r)) :
    F (List.replicate run q ++ d :: s) = some (List.replicate run q ++ t, r) := by
  match run with
  | 0 => exact h
  | 1 | 2 => simp [List.replicate_succ, hF.quote, hd, h]

/-- Between tripled quotes a text is read back, with the run of quotes in front of it. The run is
taken as soon as another character comes, or with the closing quotes. -/
theorem Body.take (hF : Tripled q F) (h : Body q F run s t) (hr : r.head? ≠ some q) :
    F (List.replicate run q ++ (s ++ q :: q :: q :: r)) = some (List.replicate run q ++ t, r) := by
  induction h with
  | nil hrun => simpa using hF.take_closing hrun hr
  | quote _ ih => simpa [List.replicate_succ'] using ih
  | @char _ a s t c hrun ha hc _ ih =>
    obtain ⟨d, hd, hne⟩ := ha
    obtain ⟨a, rfl⟩ := List.head?_eq_some_iff.1 hd
    have hs : F (d :: a ++ (s ++ q :: q :: q :: r)) = some (c :: t, r) := by
      rw [hc, ← List.nil_append (s ++ _)]
      exact congrArg (prepend _) ih
    rw [List.append_assoc]
    exact hF.take_quotes hrun hne hs

theorem head?_of_spells (h : Spells s c) : ∃ d ∈ s.head?, d ≠ '"' ∧ isPlain d = true := by
  cases h with
  | escape | number => exact ⟨'\\', rfl, by decide, rfl⟩
  | plain _ hq h => exact ⟨_, rfl, hq, h⟩

theorem body_escapeIn (t : Text) (hrun : run ≤ 2) :
    Body '"' (takeMulti false) run (escapeIn true run t) t := by
  induction t generalizing run with
  | nil => exact .nil hrun
  | cons c t ih =>
    by_cases hq : c = '"'
    · subst hq
      by_cases h : run < 2
      · simpa [escapeIn, h] using Body.quote (ih (Nat.succ_le_of_lt h))
      · simpa [escapeIn, h] using Body.char hrun ⟨'\\', rfl, by decide⟩
          (takeMulti_spells (.escape rfl)) (ih (Nat.zero_le 2))
    · rw [escapeIn_cons true run hq]
      by_cases hn : c = '\n'
      · subst hn
        exact .char hrun ⟨_, rfl, hq⟩ (fun r => by simp [escapeIn, takeMulti]) (ih (Nat.zero_le 2))
      · have hs := spells_escapeIn true hq fun _ => hn
        obtain ⟨d, hd, hne, -⟩ := head?_of_spells hs
        exact .char hrun ⟨d, hd, hne⟩ (takeMulti_spells hs) (ih (Nat.zero_le 2))

def runStep (q : Char) (s : Nat × Nat) (c : Char) : Nat × Nat :=
  let n := if c = q then s.1 + 1 else 0
  (n, max s.2 n)

theorem longestRun_eq (q : Char) (t : Text) : longestRun q t = (t.foldl (runStep q) (0, 0)).2 := rfl

theorem le_foldl_runStep (q : Char) (t : Text) (n : Nat × Nat) :
    n.2 ≤ (t.foldl (runStep q) n).2 := by
  induction t generalizing n with
  | nil => exact Nat.le_refl _
  | cons c t ih => exact Nat.le_trans (Nat.le_max_left _ _) (ih (runStep q n c))

theorem not_mem_of_longestRun (h : longestRun q t = 0) : q ∉ t := by
  intro hq
  obtain ⟨a, b, rfl⟩ := List.append_of_mem hq
  have hle := le_foldl_runStep q b (runStep q (a.foldl (runStep q) (0, 0)) q)
  rw [longestRun_eq, List.foldl_append, List.foldl_cons] at h
  rw [h] at hle
  simp [runStep] at hle

theorem body_of_runs (ht : ∀ c ∈ t, c = '\n' ∨ isPlain c = true) {m : Nat} (hm : run ≤ m)
    (h : (t.foldl (runStep '\'') (run, m)).2 ≤ 2) :
    Body '\'' takeMultiLiteral run t t := by
  induction t generalizing run m with
  | nil => exact .nil (Nat.le_trans hm h)
  | cons c t ih =>
    have ht' := fun d hd => ht d (List.mem_cons_of_mem c hd)
    by_cases hq : c = '\''
    · subst hq
      exact .quote (ih ht' (Nat.le_max_right m (run + 1)) h)
    · have hrun : run ≤ 2 := Nat.le_trans hm (Nat.le_trans (le_foldl_runStep _ _ (run, m)) h)
      have hF (r : Text) : takeMultiLiteral (c :: r) = prepend (some c) (takeMultiLiteral r) := by
        have hc := ht c (by simp)
        have hr : c ≠ '\r' := by
          rintro rfl
          exact absurd hc (by decide)
        simp [takeMultiLiteral, hc, hr, hq]
      have h' : (t.foldl (runStep '\'') (0, m)).2 ≤ 2 := by
        simpa [runStep, hq] using h
      exact .char (a := [c]) hrun ⟨c, rfl, hq⟩ hF (ih ht' (Nat.zero_le m) h')

end Tripled

theorem dropLineEnd_openingEnd (h : '\n' ∉ t → ∃ d ∈ s.head?, d ≠ '\n' ∧ d ≠ '\r') :
    dropLineEnd (openingEnd t ++ s) = s := by
  by_cases hn : '\n' ∈ t
  · simp [openingEnd, hn, dropLineEnd]
  · obtain ⟨d, hd, hne, hr⟩ := h hn
    obtain ⟨s, rfl⟩ := List.head?_eq_some_iff.1 hd
    simp [openingEnd, hn, dropLineEnd, hne, hr]

theorem takeQuoted_basic (h : takeBasic s = some (t, r)) (hr : r.head? ≠ some '"') :
    takeQuoted ('"' :: s) = some (t, r) := by
  rw [takeQuoted]
  · exact h
  · -- with two more quotes, the first of them would close the text and the other follow it
    rintro x rfl
    obtain ⟨-, rfl⟩ : [] = t ∧ '"' :: x = r := by simpa [takeBasic] using h
    exact hr rfl

theorem takeQuoted_literal (h : takeLiteral s = some (t, r)) (hr : r.head? ≠ some '\'') :
    takeQuoted ('\'' :: s) = some (t, r) := by
  rw [takeQuoted]
  · exact h
  · rintro x rfl
    obtain ⟨-, rfl⟩ : [] = t ∧ '\'' :: x = r := by simpa [takeLiteral] using h
    exact hr rfl

theorem takeQuoted_writeBasic (t : Text) (hr : r.head? ≠ some '"') :
    takeQuoted (writeBasic t ++ r) = some (t, r) := by
  have h := takeQuoted_basic (takeBasic_escapeIn t r) hr
  simpa [writeBasic] using h

theorem head?_escapeIn (hn : '\n' ∉ t) (r : Text) :
    ∃ d ∈ (escapeIn true 0 t ++ '"' :: r).head?, d ≠ '\n' ∧ d ≠ '\r' := by
  cases t with
  | nil => exact ⟨'"', rfl, by decide⟩
  | cons c t =>
    by_cases hq : c = '"'
    · exact ⟨'"', by simp [escapeIn, hq], by decide⟩
    · have hc : c ≠ '\n' := fun e => hn (e ▸ List.mem_cons_self)
      obtain ⟨d, hd, -, hp⟩ := head?_of_spells (spells_escapeIn true hq fun _ => hc)
      obtain ⟨a, ha⟩ := List.head?_eq_some_iff.1 hd
      rw [escapeIn_cons true 0 hq, ha]
      exact ⟨d, rfl, isPlain_ne hp⟩

theorem takeQuoted_writeMulti (t : Text) (hr : r.head? ≠ some '"') :
    takeQuoted (writeMulti t ++ r) = some (t, r) := by
  have hb := (body_escapeIn t (Nat.zero_le 2)).take tripled_takeMulti hr
  simpa [writeMulti, takeQuoted, dropLineEnd_openingEnd fun hn => head?_escapeIn hn _] using hb

theorem takeQuoted_writeMultiLiteral (ht : ∀ c ∈ t, c = '\n' ∨ isPlain c = true)
    (h : longestRun '\'' t ≤ 2) (hr : r.head? ≠ some '\'') :
    takeQuoted (writeMultiLiteral t ++ r) = some (t, r) := by
  have hb := (body_of_runs ht (Nat.zero_le 0) h).take tripled_takeMultiLiteral hr
  have hd : '\n' ∉ t → ∃ d ∈ (t ++ '\'' :: '\'' :: '\'' :: r).head?, d ≠ '\n' ∧ d ≠ '\r' := by
    intro hn
    cases t with
    | nil => exact ⟨'\'', rfl, by decide⟩
    | cons c t =>
      have hc : c ≠ '\n' := fun e => hn (e ▸ List.mem_cons_self)
      exact ⟨c, rfl, isPlain_ne ((ht c (by simp)).resolve_left hc)⟩
  simpa [writeMultiLiteral, takeQuoted, dropLineEnd_openingEnd hd] using hb

theorem isPlain_of_not_needsEscape (h : needsEscape c = false) : c = '\n' ∨ isPlain c = true := by
  simp only [needsEscape, isPlain, Bool.or_eq_false_iff, Bool.and_eq_false_iff, Bool.or_eq_true,
    Bool.and_eq_true, decide_eq_true_eq, decide_eq_false_iff_not, Classical.not_not] at h ⊢
  obtain ⟨(h | h) | h, hd⟩ := h
  · exact .inr (.inr ⟨Nat.le_of_not_lt h, hd⟩)
  · exact .inr (.inl h)
  · exact .inl h

/-- A text is read back from the quotes its writer puts it in, unless more quotes follow. -/
theorem takeQuoted_quote (t : Text) (hr : ∀ q ∈ r.head?, q ≠ '"' ∧ q ≠ '\'') :
    takeQuoted (quote t ++ r) = some (t, r) := by
  have hd : r.head? ≠ some '"' := fun e => (hr _ e).1 rfl
  have hs : r.head? ≠ some '\'' := fun e => (hr _ e).2 rfl
  have hp (h : t.any needsEscape = false) : ∀ c ∈ t, c = '\n' ∨ isPlain c = true := fun c hc =>
    isPlain_of_not_needsEscape (Bool.eq_false_iff.2 (List.any_eq_false.1 h c hc))
  unfold quote
  dsimp only
  split
  · exact takeQuoted_writeBasic t hd
  split
  · next h =>
    simp only [Bool.and_eq_true, Bool.not_eq_true', decide_eq_true_eq] at h
    obtain ⟨⟨hh, hrun⟩, hlines⟩ := h
    have hn : '\n' ∉ t := by simpa using hlines
    have ht : ∀ c ∈ t, isPlain c = true ∧ c ≠ '\'' := fun c hc =>
      ⟨(hp hh c hc).resolve_left fun e => hn (e ▸ hc), fun e => not_mem_of_longestRun hrun (e ▸ hc)⟩
    have hl := takeQuoted_literal (takeLiteral_append ht r) hs
    simpa using hl
  split
  · exact takeQuoted_writeMulti t hd
  split
  · next h =>
    simp only [Bool.and_eq_true, Bool.not_eq_true', decide_eq_true_eq] at h
    exact takeQuoted_writeMultiLiteral (hp h.1) h.2 hs
  split
  · exact takeQuoted_writeMulti t hd
  · exact takeQuoted_writeBasic t hd

end Triage.Toml
