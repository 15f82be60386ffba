import Triage.Proofs.Toml.Reader

set_option autoImplicit false

namespace Triage.Toml

inductive Breaks : Text → Prop
  | newline (r : Text) : Breaks ('\n' :: r)
  | crlf (r : Text) : Breaks ('\r' :: '\n' :: r)

section Quoted
variable {q : Char} {s t r x : Text}

theorem Breaks.head?_ne (hs : Breaks s) {c : Char} (hn : c ≠ '\n') (hr : c ≠ '\r') :
    s.head? ≠ some c := by
  cases hs <;> simp [hn.symm, hr.symm]

theorem Breaks.ne_cons (hs : Breaks s) {c : Char} (hn : c ≠ '\n') (hr : c ≠ '\r')
    (h : ∀ r, t ≠ c :: r) (r : Text) : t ++ s ≠ c :: r := by
  intro he
  cases t with
  | nil => exact hs.head?_ne hn hr (congrArg List.head? he)
  | cons d t =>
    obtain ⟨rfl, -⟩ := List.cons.inj he
    exact h t rfl

theorem Breaks.span (hs : Breaks s) {p : Char → Bool} (hn : p '\n' = false) (hr : p '\r' = false)
    (t : Text) :
    (t ++ s).takeWhile p = t.takeWhile p ∧ (t ++ s).dropWhile p = t.dropWhile p ++ s := by
  induction t with
  | nil => cases hs <;> simp [hn, hr]
  | cons c t ih => cases hc : p c <;> simp [hc, ih]

theorem prepend_eq_some_iff {c : Option Char} {p : Option (Text × Text)} :
    prepend c p = some (x, r) ↔ ∃ d y, c = some d ∧ p = some (y, r) ∧ x = d :: y := by
  cases c with
  | none => simp [prepend]
  | some d =>
    cases p with
    | none => simp [prepend]
    | some p =>
      obtain ⟨y, r'⟩ := p
      simp only [prepend, Option.some.injEq, Prod.mk.injEq]
      constructor
      · rintro ⟨rfl, rfl⟩
        exact ⟨d, y, rfl, ⟨rfl, rfl⟩, rfl⟩
      · rintro ⟨_, _, rfl, ⟨rfl, rfl⟩, rfl⟩
        exact ⟨rfl, rfl⟩

theorem takeBasic_more (h : takeBasic t = some (x, r)) (s : Text) :
    takeBasic (t ++ s) = some (x, r ++ s) := by
  fun_induction takeBasic t generalizing x with
  | case1 => cases h
  | case2 =>
    cases h
    rfl
  | case3 a b c d t ih | case4 a b c d e f g h t ih =>
    obtain ⟨c, y, hc, hy, rfl⟩ := prepend_eq_some_iff.1 h
    exact prepend_eq_some_iff.2 ⟨c, y, hc, ih hy, rfl⟩
  | case5 e t _ _ ih =>
    obtain ⟨c, y, hc, hy, rfl⟩ := prepend_eq_some_iff.1 h
    obtain ⟨hu, hU, -⟩ := plainEscape?_some hc
    simp [takeBasic, hu, hU, hc, ih hy]
  | case6 c t hq _ _ _ hc ih =>
    obtain ⟨c, y, ⟨⟩, hy, rfl⟩ := prepend_eq_some_iff.1 h
    simp [takeBasic, hc, ih hy]
  | case7 => cases h

theorem takeLiteral_more (h : takeLiteral t = some (x, r)) (s : Text) :
    takeLiteral (t ++ s) = some (x, r ++ s) := by
  fun_induction takeLiteral t generalizing x with
  | case1 => cases h
  | case2 =>
    cases h
    rfl
  | case3 c t hq hc ih =>
    obtain ⟨c, y, ⟨⟩, hy, rfl⟩ := prepend_eq_some_iff.1 h
    simp [takeLiteral, hc, ih hy]
  | case4 => cases h

theorem closing_more (hs : Breaks s) (hn : q ≠ '\n') (hr : q ≠ '\r') (t : Text) :
    closing q (t ++ s) = ((closing q t).1, (closing q t).2 ++ s) := by
  have hq : s.head? ≠ some q := hs.head?_ne hn hr
  match t with
  | [] => exact closing_append (Nat.zero_le 2) hq
  | [c] =>
    by_cases hc : c = q
    · subst hc
      simpa [closing] using closing_append (by decide : 1 ≤ 2) hq
    · have hne : (c :: s).head? ≠ some q := by simp [hc]
      simpa [closing, hc] using closing_append (Nat.zero_le 2) hne
  | c :: d :: t => by_cases hc : c = q <;> by_cases hd : d = q <;> simp [closing, hc, hd]

theorem endsLine_more (hs : Breaks s) (h : endsLine t = true) : endsLine (t ++ s) = true := by
  unfold endsLine at *
  rw [(hs.span (by decide) (by decide) t).2]
  split at h
  · next hd => simp [hd]
  · next hd => simp [hd]
  · cases h

theorem Breaks.ne_quotes (hs : Breaks s) (hn : q ≠ '\n') (hr : q ≠ '\r')
    (h : ∀ r, t ≠ q :: q :: r) (r : Text) : t ++ s ≠ q :: q :: r := by
  have hq : s.head? ≠ some q := hs.head?_ne hn hr
  intro he
  match t with
  | [] => exact hq (congrArg List.head? he)
  | [c] => exact hq (congrArg List.head? (List.cons.inj he).2)
  | c :: d :: t =>
    obtain ⟨rfl, he⟩ := List.cons.inj he
    obtain ⟨rfl, -⟩ := List.cons.inj he
    exact h t rfl

theorem takeMulti_cons (b : Bool) {c : Char} (hq : ∀ r, c = '"' → t ≠ '"' :: '"' :: r)
    (hb : c ≠ '\\') (hr : c ≠ '\r') :
    takeMulti b (c :: t) = if b && (isGap c || c = '\n') then takeMulti true t
      else if c = '\n' ∨ (c ≠ '\\' ∧ isPlain c) then prepend (some c) (takeMulti false t)
      else none := by
  rw [takeMulti]
  · exact fun r hc ht => hq r hc ht
  all_goals simp [hb, hr]

theorem takeMulti_more (hs : Breaks s) {b : Bool} (h : takeMulti b t = some (x, r)) :
    takeMulti b (t ++ s) = some (x, r ++ s) := by
  fun_induction takeMulti b t generalizing x with
  | case1 => cases h
  | case2 b t =>
    have hc := closing_more hs (q := '"') (by decide) (by decide) t
    rw [Option.some.inj h] at hc
    simp [takeMulti, hc]
  | case3 _ a b c d t ih | case4 _ a b c d e f g h t ih =>
    obtain ⟨c, y, hc, hy, rfl⟩ := prepend_eq_some_iff.1 h
    exact prepend_eq_some_iff.2 ⟨c, y, hc, ih hy, rfl⟩
  | case5 b e t hu hU he ih =>
    have hne : e ≠ 'u' ∧ e ≠ 'U' := by
      constructor <;> (rintro rfl; simp [endsLine, isGap] at he)
    have he : endsLine (e :: (t ++ s)) = true := endsLine_more hs he
    simpa [takeMulti, hne, he] using ih h
  | case6 b e t _ _ he ih =>
    obtain ⟨c, y, hc, hy, rfl⟩ := prepend_eq_some_iff.1 h
    obtain ⟨hu, hU, hg, hn, hr⟩ := plainEscape?_some hc
    have he : endsLine (e :: (t ++ s)) = false := by simp [endsLine, hg, hn, hr]
    simp [takeMulti, hu, hU, hc, he, ih hy]
  | case7 t ih => simpa [takeMulti] using ih h
  | case8 b t hb ih =>
    obtain ⟨c, y, ⟨⟩, hy, rfl⟩ := prepend_eq_some_iff.1 h
    simp [takeMulti, hb, ih hy]
  | case9 b c t hq _ _ _ _ hc ih =>
    have hne : c ≠ '\\' ∧ c ≠ '\r' := by
      constructor <;> (rintro rfl; simp [isGap] at hc)
    rw [List.cons_append, takeMulti_cons b (fun r e =>
      hs.ne_quotes (by decide) (by decide) (fun r => hq r e) r) hne.1 hne.2, if_pos hc]
    exact ih h
  | case10 b c t hq _ _ _ _ hg hc ih =>
    obtain ⟨c, y, ⟨⟩, hy, rfl⟩ := prepend_eq_some_iff.1 h
    have hne : c ≠ '\\' ∧ c ≠ '\r' := by
      constructor <;> (rintro rfl; simp [isPlain] at hc)
    rw [List.cons_append, takeMulti_cons b (fun r e =>
      hs.ne_quotes (by decide) (by decide) (fun r => hq r e) r) hne.1 hne.2, if_neg hg, if_pos hc,
      ih hy, prepend_some]
  | case11 => cases h

theorem takeMultiLiteral_more (hs : Breaks s) (h : takeMultiLiteral t = some (x, r)) :
    takeMultiLiteral (t ++ s) = some (x, r ++ s) := by
  fun_induction takeMultiLiteral t generalizing x with
  | case1 => cases h
  | case2 t =>
    have hc := closing_more hs (q := '\'') (by decide) (by decide) t
    rw [Option.some.inj h] at hc
    simp [takeMultiLiteral, hc]
  | case3 t ih =>
    obtain ⟨c, y, ⟨⟩, hy, rfl⟩ := prepend_eq_some_iff.1 h
    simp [takeMultiLiteral, ih hy]
  | case4 c t hq hr hc ih =>
    obtain ⟨c, y, ⟨⟩, hy, rfl⟩ := prepend_eq_some_iff.1 h
    have hne : c ≠ '\r' := by
      rintro rfl
      simp [isPlain] at hc
    rw [List.cons_append, takeMultiLiteral]
    · rw [if_pos hc, ih hy, prepend_some]
    · exact fun r e => hs.ne_quotes (by decide) (by decide) (fun r => hq r e) r
    · exact fun _ e => absurd e hne
  | case5 => cases h

theorem dropLineEnd_more (ht : t ≠ []) (hr : t ≠ ['\r']) (s : Text) :
    dropLineEnd (t ++ s) = dropLineEnd t ++ s := by
  match t with
  | [] => exact absurd rfl ht
  | [c] =>
    have hc : c ≠ '\r' := fun e => hr (by rw [e])
    by_cases hn : c = '\n' <;> simp [dropLineEnd, hn, hc]
  | c :: d :: t =>
    by_cases hn : c = '\n' <;> by_cases hc : c = '\r' <;> by_cases hd : d = '\n' <;>
      simp [dropLineEnd, hn, hc, hd]

theorem takeQuoted_more (hs : Breaks s) (h : takeQuoted t = some (x, r)) :
    takeQuoted (t ++ s) = some (x, r ++ s) := by
  unfold takeQuoted at h
  split at h
  · next t =>
    have ht : t ≠ [] ∧ t ≠ ['\r'] := by
      constructor <;> (rintro rfl; simp [dropLineEnd, takeMulti, isPlain] at h)
    have hd := takeMulti_more hs h
    rw [← dropLineEnd_more ht.1 ht.2] at hd
    exact hd
  · next t hq =>
    rw [List.cons_append, takeQuoted]
    · exact takeBasic_more h s
    · exact hs.ne_quotes (by decide) (by decide) hq
  · next t =>
    have ht : t ≠ [] ∧ t ≠ ['\r'] := by
      constructor <;> (rintro rfl; simp [dropLineEnd, takeMultiLiteral, isPlain] at h)
    have hd := takeMultiLiteral_more hs h
    rw [← dropLineEnd_more ht.1 ht.2] at hd
    exact hd
  · next t hq =>
    rw [List.cons_append, takeQuoted]
    · exact takeLiteral_more h s
    · exact hs.ne_quotes (by decide) (by decide) hq
  · cases h

end Quoted

section Keys
variable {n : Nat} {s t r x : Text} {k : Key}

theorem skipGap_more (hs : Breaks s) (t : Text) : skipGap (t ++ s) = skipGap t ++ s :=
  (hs.span (by decide) (by decide) t).2

theorem takePart_more (hs : Breaks s) (h : takePart t = some (x, r)) :
    takePart (t ++ s) = some (x, r ++ s) := by
  unfold takePart at h
  split at h
  · exact takeBasic_more h s
  · exact takeLiteral_more h s
  · next hd hq =>
    obtain ⟨htake, hdrop⟩ := hs.span (p := isBare) (by decide) (by decide) t
    cases t with
    | nil => cases h
    | cons c t =>
      rw [List.cons_append] at htake hdrop ⊢
      rw [takePart, htake, hdrop]
      · split at h
        · cases h
        · cases h
          rfl
      · exact fun r e => hd t (by rw [(List.cons.inj e).1])
      · exact fun r e => hq t (by rw [(List.cons.inj e).1])

theorem takeKey_more (hs : Breaks s) (h : takeKey n t = some (k, r)) :
    takeKey n (t ++ s) = some (k, r ++ s) := by
  induction n generalizing t k with
  | zero => cases h
  | succ n ih =>
    rw [takeKey] at h ⊢
    rw [skipGap_more hs]
    cases hp : takePart (skipGap t) with
    | none => simp [hp] at h
    | some p =>
      obtain ⟨p, u⟩ := p
      rw [takePart_more hs hp]
      simp only [hp] at h ⊢
      rw [skipGap_more hs]
      split at h
      · next u hu =>
        obtain ⟨⟨k', r'⟩, hk, he⟩ := Option.map_eq_some_iff.1 h
        obtain ⟨rfl, rfl⟩ := Prod.mk.inj he
        simp [hu, ih hk]
      · next hu =>
        obtain ⟨rfl, rfl⟩ := Prod.mk.inj (Option.some.inj h)
        split
        · next v hv => exact absurd hv (hs.ne_cons (by decide) (by decide) hu v)
        · rfl

end Keys

section Spellings
variable {s t r : Text}

theorem isSome_takeField_more (hs : Breaks s) (width low high : Nat) (t : Text) :
    (takeField width low high (t ++ s)).isSome = (takeField width low high t).isSome := by
  by_cases hw : width ≤ t.length
  · simp only [takeField, List.take_append_of_le_length hw]
    split <;> rfl
  · have hl : ¬ (t.take width).length = width := by
      rw [List.length_take]
      omega
    have hd : ¬ ((t ++ s).take width).all Text.isDigit = true := by
      obtain ⟨k, hk⟩ : ∃ k, width - t.length = k + 1 := ⟨width - t.length - 1, by omega⟩
      rw [List.take_append, hk]
      cases hs <;> simp [Text.isDigit]
    rw [takeField, takeField, if_neg fun h => hd h.2.1, if_neg fun h => hl h.1]

theorem takeSpelling_more (hs : Breaks s) (t : Text) :
    takeSpelling (t ++ s) = ((takeSpelling t).1, (takeSpelling t).2 ++ s) := by
  unfold takeSpelling
  extract_lets ends u v u' v'
  have hspan (t : Text) : (t ++ s).takeWhile (!ends ·) = t.takeWhile (!ends ·) ∧
      (t ++ s).dropWhile (!ends ·) = t.dropWhile (!ends ·) ++ s :=
    hs.span (by decide) (by decide) t
  have hu : u = u' := (hspan t).1
  have hv : v = v' ++ s := (hspan t).2
  rw [hu, hv]
  clear_value u v u' v'
  cases takeDate u' with
  | none => rfl
  | some d =>
    cases d with
    | cons => rfl
    | nil =>
      cases v' with
      | nil => cases hs <;> rfl
      | cons c more =>
        by_cases hc : c = ' '
        · subst hc
          simp only [List.cons_append, isSome_takeField_more hs, hspan more]
          split <;> rfl
        · simp [hc]

theorem skipFill_more {b : Bool} {c : Char} (hc : c ≠ '\r')
    (h : skipFill b t = some (c :: r)) (s : Text) : skipFill b (t ++ s) = some (c :: r ++ s) := by
  fun_induction skipFill b t with
  | case1 => cases h
  | case2 b t ih => simpa [skipFill] using ih h
  | case3 b t ih => simpa [skipFill] using ih h
  | case4 d t hn hr hd ih =>
    have hne := isPlain_ne hd
    simpa [skipFill, hne.1, hne.2, hd] using ih h
  | case5 => cases h
  | case6 t _ _ ih => simpa [skipFill] using ih h
  | case7 d t hn hr hcomment hgap ih =>
    have hne : d ≠ '\r' := by
      rintro rfl
      simp [isGap] at hgap
    have hn : d ≠ '\n' := hn
    simpa [skipFill, hn, hne, hcomment, hgap] using ih h
  | case8 d t hn hr hcomment hgap =>
    cases h
    simp [skipFill, hc, hcomment, hgap]

end Spellings

section Values
variable {m n depth : Nat} {s t r : Text} {v : Toml}

/-- With so many steps or more, what is taken is taken in front of a line end too. -/
structure Settled (n : Nat) : Prop where
  value : ∀ {m depth t v r s}, Breaks s → n ≤ m → takeValue n depth t = some (v, r) →
    takeValue m depth (t ++ s) = some (v, r ++ s)
  items : ∀ {m depth t vs r s}, Breaks s → n ≤ m → takeItems n depth t = some (vs, r) →
    takeItems m depth (t ++ s) = some (vs, r ++ s)
  members : ∀ {m depth d t ms r s}, Breaks s → n ≤ m → takeMembers n depth d t = some (ms, r) →
    takeMembers m depth d (t ++ s) = some (ms, r ++ s)

theorem takeValue_bare (h : ∀ c ∈ t.head?, c ∉ ['[', '\x7b', '"', '\'']) :
    takeValue (n + 1) depth t =
      (scalar? (takeSpelling t).1).map (·, (takeSpelling t).2) := by
  rw [takeValue]
  all_goals
    rintro r rfl
    simp at h

theorem takeValue_quoted {q : Char} (hq : q = '"' ∨ q = '\'') :
    takeValue (n + 1) depth (q :: t) =
      (takeQuoted (q :: t)).map fun p => (.string p.1, p.2) := by
  rcases hq with rfl | rfl <;> rw [takeValue]

theorem takeValue_nil : takeValue n depth [] = none := by
  cases n with
  | zero => rw [takeValue]
  | succ n => rw [takeValue_bare (by simp)]; rfl

theorem takeValue_return : takeValue n depth ('\r' :: t) = none := by
  cases n with
  | zero => rw [takeValue]
  | succ n => rw [takeValue_bare (by simp)]; rfl

theorem Settled.takeArray (ih : Settled n) (hs : Breaks s) (hm : n ≤ m)
    (h : takeValue (n + 1) depth ('[' :: t) = some (v, r)) :
    takeValue (m + 1) depth ('[' :: (t ++ s)) = some (v, r ++ s) := by
  cases depth with
  | zero => simp [takeValue] at h
  | succ depth =>
    rw [takeValue] at h ⊢
    obtain ⟨⟨vs, r'⟩, hi, he⟩ := Option.map_eq_some_iff.1 h
    cases he
    rw [ih.items hs hm hi]
    rfl

theorem Settled.takeTable (ih : Settled n) (hs : Breaks s) (hm : n ≤ m)
    (h : takeValue (n + 1) depth ('\x7b' :: t) = some (v, r)) :
    takeValue (m + 1) depth ('\x7b' :: (t ++ s)) = some (v, r ++ s) := by
  cases depth with
  | zero => simp [takeValue] at h
  | succ depth =>
    rw [takeValue] at h ⊢
    rw [skipGap_more hs]
    split at h
    · next u hu =>
      cases h
      simp [hu]
    · next hu =>
      obtain ⟨⟨ms, r'⟩, hms, he⟩ := Option.bind_eq_some_iff.1 h
      cases he
      split
      · next u hv => exact absurd hv (hs.ne_cons (by decide) (by decide) hu u)
      · rw [ih.members hs hm hms]
        rfl

theorem Settled.takeValue (ih : Settled n) (hs : Breaks s) (hm : n ≤ m)
    (h : takeValue (n + 1) depth t = some (v, r)) :
    takeValue (m + 1) depth (t ++ s) = some (v, r ++ s) := by
  cases t with
  | nil => simp [takeValue_nil] at h
  | cons c t =>
    rw [List.cons_append]
    by_cases harray : c = '['
    · subst harray
      exact ih.takeArray hs hm h
    by_cases htable : c = '\x7b'
    · subst htable
      exact ih.takeTable hs hm h
    by_cases hquote : c = '"' ∨ c = '\''
    · rw [takeValue_quoted hquote] at h ⊢
      obtain ⟨⟨x, r'⟩, hq, he⟩ := Option.map_eq_some_iff.1 h
      cases he
      rw [← List.cons_append, takeQuoted_more hs hq]
      rfl
    · have hc : ∀ d ∈ (c :: t).head?, d ∉ ['[', '\x7b', '"', '\''] := by
        simpa [harray, htable] using hquote
      rw [takeValue_bare hc] at h
      rw [← List.cons_append, takeValue_bare (by simpa using hc), takeSpelling_more hs]
      obtain ⟨w, hw, he⟩ := Option.map_eq_some_iff.1 h
      cases he
      rw [hw]
      rfl

theorem Settled.takeItems (ih : Settled n) (hs : Breaks s) (hm : n ≤ m) {vs : List Toml}
    (h : takeItems (n + 1) depth t = some (vs, r)) :
    takeItems (m + 1) depth (t ++ s) = some (vs, r ++ s) := by
  rw [Toml.takeItems] at h ⊢
  split at h
  · cases h
  · next u hu =>
    cases h
    simp [skipFill_more (by decide) hu]
  · next u hbracket hu =>
    split at h
    · cases h
    · next w r₁ hw =>
      have hv := ih.value hs hm hw
      cases u with
      | nil => simp [takeValue_nil] at hw
      | cons c u =>
        have hc : c ≠ '\r' := by
          rintro rfl
          simp [takeValue_return] at hw
        have hb : c ≠ ']' := fun e => hbracket u (by rw [e])
        rw [List.cons_append] at hv
        simp only [skipFill_more hc hu, List.cons_append]
        split at h
        · next r₂ hr =>
          obtain ⟨⟨ws, r'⟩, hi, he⟩ := Option.map_eq_some_iff.1 h
          cases he
          simp [hb, hv, skipFill_more (by decide) hr, ih.items hs hm hi]
        · next r₂ hr =>
          cases h
          simp [hb, hv, skipFill_more (by decide) hr]
        · cases h

theorem Settled.takeMembers (ih : Settled n) (hs : Breaks s) (hm : n ≤ m) {d : Draft} {ms : Members}
    (h : takeMembers (n + 1) depth d t = some (ms, r)) :
    takeMembers (m + 1) depth d (t ++ s) = some (ms, r ++ s) := by
  rw [Toml.takeMembers] at h ⊢
  split at h
  · cases h
  · next k u hk =>
    rw [takeKey_more hs hk]
    split at h
    · next u =>
      split at h
      · cases h
      · next w r₁ hw =>
        have hv := ih.value hs hm hw
        split at h
        · cases h
        · next d' hd =>
          simp only [List.cons_append, skipGap_more hs, hv, hd]
          split at h
          · next r₂ hr => simp [hr, ih.members hs hm h]
          · next r₂ hr =>
            cases h
            simp [hr]
          · cases h
    · cases h

theorem settled (n : Nat) : Settled n := by
  induction n with
  | zero => exact ⟨by simp [Toml.takeValue], by simp [Toml.takeItems], by simp [Toml.takeMembers]⟩
  | succ n ih =>
    refine ⟨fun {m} _ _ _ _ _ hs hm h => ?_, fun {m} _ _ _ _ _ hs hm h => ?_,
      fun {m} _ _ _ _ _ _ hs hm h => ?_⟩
    all_goals
      obtain ⟨m, rfl⟩ := Nat.exists_eq_add_one.2 (Nat.zero_lt_of_lt hm)
      have hm := Nat.le_of_succ_le_succ hm
    · exact ih.takeValue hs hm h
    · exact ih.takeItems hs hm h
    · exact ih.takeMembers hs hm h

end Values

section Lines
variable {m n : Nat} {s t r : Text} {l : List Statement} {st : Statement}

theorem after?_more {p : Text} (h : Text.after? p t = some r) (s : Text) :
    Text.after? p (t ++ s) = some (r ++ s) := by
  rw [Text.eq_append_of_after? h, List.append_assoc, Text.after?_append]

/-- What is left behind a line, out of what is put behind the text: it is behind the rest, or the
text ended in the line, which then takes a line end. -/
def Left (r : Text) (left : Text → Text) : Prop := left = (r ++ ·) ∨ r = [] ∧ left = dropLineEnd

def uncommented (t : Text) : Text :=
  match skipGap t with
  | '#' :: r => r.dropWhile isPlain
  | t => t

def pastBreak : Text → Option Text
  | [] => some []
  | '\n' :: r => some r
  | '\r' :: '\n' :: r => some r
  | _ => none

theorem takeLineEnd_eq (t : Text) : takeLineEnd t = pastBreak (uncommented t) := rfl

theorem uncommented_more (hs : Breaks s) (t : Text) :
    uncommented (t ++ s) = uncommented t ++ s := by
  unfold uncommented
  rw [skipGap_more hs]
  cases hg : skipGap t with
  | nil => cases hs <;> rfl
  | cons c u =>
    by_cases hc : c = '#'
    · subst hc
      exact (hs.span (by decide) (by decide) u).2
    · simp [hc]

theorem takeLineEnd_more (h : takeLineEnd t = some r) :
    ∃ left, Left r left ∧ ∀ {s}, Breaks s → takeLineEnd (t ++ s) = some (left s) := by
  rw [takeLineEnd_eq] at h
  unfold pastBreak at h
  split at h
  · next hu =>
    cases h
    refine ⟨_, .inr ⟨rfl, rfl⟩, fun hs => ?_⟩
    rw [takeLineEnd_eq, uncommented_more hs, hu]
    cases hs <;> rfl
  · next u hu =>
    cases h
    exact ⟨_, .inl rfl, fun hs => by rw [takeLineEnd_eq, uncommented_more hs, hu]; rfl⟩
  · next u hu =>
    cases h
    exact ⟨_, .inl rfl, fun hs => by rw [takeLineEnd_eq, uncommented_more hs, hu]; rfl⟩
  · cases h

theorem takeStatement_more (h : takeStatement t = some (st, r)) :
    ∃ left, Left r left ∧ ∀ {s}, Breaks s → takeStatement (t ++ s) = some (st, left s) := by
  unfold takeStatement at h
  split at h
  · next t =>
    obtain ⟨⟨k, u⟩, hk, h⟩ := Option.bind_eq_some_iff.1 h
    obtain ⟨u', hu, h⟩ := Option.bind_eq_some_iff.1 h
    obtain ⟨r₁, hr, h⟩ := Option.bind_eq_some_iff.1 h
    cases h
    obtain ⟨left, hl, hr'⟩ := takeLineEnd_more hr
    refine ⟨left, hl, fun hs => ?_⟩
    simp [takeStatement, takeKey_more hs hk, after?_more hu, hr' hs]
  · next t hb =>
    obtain ⟨⟨k, u⟩, hk, h⟩ := Option.bind_eq_some_iff.1 h
    obtain ⟨u', hu, h⟩ := Option.bind_eq_some_iff.1 h
    obtain ⟨r₁, hr, h⟩ := Option.bind_eq_some_iff.1 h
    cases h
    obtain ⟨left, hl, hr'⟩ := takeLineEnd_more hr
    refine ⟨left, hl, fun hs => ?_⟩
    rw [List.cons_append, takeStatement]
    · simp [takeKey_more hs hk, after?_more hu, hr' hs]
    · exact hs.ne_cons (by decide) (by decide) hb
  · next hb hb' =>
    obtain ⟨⟨k, u⟩, hk, h⟩ := Option.bind_eq_some_iff.1 h
    obtain ⟨u', hu, h⟩ := Option.bind_eq_some_iff.1 h
    obtain ⟨⟨v, w⟩, hv, h⟩ := Option.bind_eq_some_iff.1 h
    obtain ⟨r₁, hr, h⟩ := Option.bind_eq_some_iff.1 h
    cases h
    obtain ⟨left, hl, hr'⟩ := takeLineEnd_more hr
    refine ⟨left, hl, fun {s} hs => ?_⟩
    have hv := (settled _).value hs (m := 2 * (u' ++ s).length + 2)
      (by rw [List.length_append]; omega) hv
    rw [← skipGap_more hs] at hv
    rw [takeStatement]
    · simp only [takeKey_more hs hk, after?_more hu, hv, hr' hs, Option.bind_eq_bind,
        Option.bind_some]
      rfl
    · exact fun r e => hs.ne_cons (by decide) (by decide) hb' ('[' :: r) e
    · exact hs.ne_cons (by decide) (by decide) hb'

/-- What one turn of the reader takes: a line end, a comment with its line, or a statement. -/
inductive Turn : Text → List Statement → Text → Prop
  | blank {t u : Text} (h : skipGap t = u) (hu : Breaks u) : Turn t [] (dropLineEnd u)
  | comment {t u r : Text} (h : skipGap t = '#' :: u) (hr : takeLineEnd ('#' :: u) = some r) :
      Turn t [] r
  | statement {t r : Text} {st : Statement} (h : takeStatement (skipGap t) = some (st, r)) :
      Turn t [st] r

theorem takeStatement_ne {c : Char} (h : takeStatement (c :: t) = some (st, r)) :
    c ∉ ['\n', '\r', '#'] := by
  intro hc
  simp only [List.mem_cons, List.not_mem_nil, or_false] at hc
  rcases hc with rfl | rfl | rfl <;> cases h

theorem Turn.statements_eq (h : Turn t l r) (n : Nat) :
    statements (n + 1) t = (statements n r).map (l ++ ·) := by
  have hid : (fun l : List Statement => [] ++ l) = id := rfl
  cases h with
  | blank h hu =>
    rw [statements, h, hid, Option.map_id]
    cases hu <;> rfl
  | comment h hr => simp [statements, h, hr]
  | statement h =>
    rw [statements]
    generalize skipGap t = u at h ⊢
    cases u with
    | nil => cases h
    | cons c u =>
      have hc := takeStatement_ne h
      simp only [List.mem_cons, List.not_mem_nil, or_false, not_or] at hc
      simp [hc, h]

/-- A document is at its end, or what one turn takes stands before what the others do. -/
theorem statements_succ_iff : statements (n + 1) t = some l ↔
    skipGap t = [] ∧ l = [] ∨
      ∃ l₁ r l₂, Turn t l₁ r ∧ statements n r = some l₂ ∧ l = l₁ ++ l₂ := by
  constructor
  · intro h
    rw [statements] at h
    split at h
    · next ht =>
      cases h
      exact .inl ⟨ht, rfl⟩
    · next r ht => exact .inr ⟨[], r, l, .blank ht (.newline r), h, rfl⟩
    · next r ht => exact .inr ⟨[], r, l, .blank ht (.crlf r), h, rfl⟩
    · next u ht =>
      obtain ⟨r, hr, h⟩ := Option.bind_eq_some_iff.1 h
      exact .inr ⟨[], r, l, .comment ht hr, h, rfl⟩
    · split at h
      · cases h
      · next st r hst =>
        obtain ⟨l₂, hl, rfl⟩ := Option.map_eq_some_iff.1 h
        exact .inr ⟨[st], r, l₂, .statement hst, hl, rfl⟩
  · rintro (⟨ht, rfl⟩ | ⟨l₁, r, l₂, hturn, hr, rfl⟩)
    · simp [statements, ht]
    · rw [hturn.statements_eq, hr]
      rfl

theorem Turn.more (h : Turn t l r) :
    ∃ left, Left r left ∧ ∀ {s}, Breaks s → Turn (t ++ s) l (left s) := by
  cases h with
  | @blank u h hu =>
    refine ⟨_, .inl rfl, fun {s} hs => ?_⟩
    have hus : Breaks (u ++ s) := by cases hu <;> constructor
    have hd : dropLineEnd (u ++ s) = dropLineEnd u ++ s := by cases hu <;> rfl
    rw [← hd]
    exact .blank (by rw [skipGap_more hs, h]) hus
  | comment h hr =>
    obtain ⟨left, hl, hr'⟩ := takeLineEnd_more hr
    exact ⟨left, hl, fun hs => .comment (by rw [skipGap_more hs, h]; rfl) (hr' hs)⟩
  | statement h =>
    obtain ⟨left, hl, hr'⟩ := takeStatement_more h
    exact ⟨left, hl, fun hs => .statement (by rw [skipGap_more hs]; exact hr' hs)⟩

theorem statements_nil (h : statements n [] = some l) : l = [] := by
  cases n with
  | zero => cases h
  | succ n => exact (Option.some.inj h).symm

/-- In front of a line end a text has its own statements, and takes so many turns for them whatever
follows. -/
theorem statements_more (h : statements n t = some l) : ∃ j < n, ∀ {s}, Breaks s → ∀ m,
    statements (m + j) (t ++ s) = (statements m s).map (l ++ ·) := by
  have hid : (fun l : List Statement => [] ++ l) = id := rfl
  induction n generalizing t l with
  | zero => cases h
  | succ n ih =>
    rcases statements_succ_iff.1 h with ⟨ht, rfl⟩ | ⟨l₁, r, l₂, hturn, hr, rfl⟩
    · refine ⟨0, Nat.zero_lt_succ n, fun {s} hs m => ?_⟩
      have hskip : skipGap (t ++ s) = skipGap s := by
        rw [skipGap_more hs, ht]
        exact (skipGap_more hs []).symm
      cases m with
      | zero => rfl
      | succ m => rw [hid, Option.map_id, id, statements, statements, hskip]
    · obtain ⟨left, rfl | ⟨rfl, rfl⟩, hmore⟩ := hturn.more
      · obtain ⟨j, hj, hm⟩ := ih hr
        refine ⟨j + 1, Nat.succ_lt_succ hj, fun {s} hs m => ?_⟩
        rw [← Nat.add_assoc, (hmore hs).statements_eq, hm hs, Option.map_map]
        congr 1
        funext l
        exact (List.append_assoc l₁ l₂ l).symm
      · -- the text ended in the line, so the first turn behind it is done already
        obtain rfl := statements_nil hr
        refine ⟨0, Nat.zero_lt_succ n, fun {s} hs m => ?_⟩
        have hbreak : Turn s [] (dropLineEnd s) := .blank (skipGap_more hs []) hs
        cases m with
        | zero => rfl
        | succ m =>
          rw [Nat.add_zero, (hmore hs).statements_eq, hbreak.statements_eq, hid, Option.map_id, id,
            List.append_nil]

end Lines

end Triage.Toml
