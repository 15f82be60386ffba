import Mathlib.Data.List.Infix
import Mathlib.Data.List.TakeWhile
import Triage.Diagnostic.Line

set_option autoImplicit false

/-!
The grammar of one line. Headings and markers are told by how they are spelled, and the readers find
exactly what is spelled that way. A line has the located form wherever a marker stands behind its
first character, so a text without a marker in it can be put before one without being cut.
-/

namespace Triage.Line

def Digits (t : Text) : Prop := t ≠ [] ∧ ∀ c ∈ t, Text.isDecimal c = true

def Heading.spelled (h : Heading) : Text :=
  h.severity ++ " TS".toList ++ h.code ++ ": ".toList ++ h.message

/-- A severity word in any letter case and a code in digits of any script. -/
structure Heading.Spelt (h : Heading) : Prop where
  severity : ∃ s : Severity, h.severity.map Text.fold = s.word
  code : Digits h.code

def Marker.spelled (m : Marker) : Text :=
  '(' :: m.line ++ ',' :: m.column ++ "): ".toList ++ m.heading.spelled

structure Marker.Spelt (m : Marker) : Prop where
  line : Digits m.line
  column : Digits m.column
  heading : m.heading.Spelt

def HasMarker (t : Text) : Prop := ∃ m : Marker, m.Spelt ∧ m.spelled <:+ t

theorem isDecimal_sign {c : Char} (h : c ∈ [':', ',', ')', '(']) : Text.isDecimal c = false := by
  simp only [List.mem_cons, List.not_mem_nil, or_false] at h
  rcases h with rfl | rfl | rfl | rfl <;> decide

theorem takeDigits_append {ds : Text} (h : Digits ds) {rest : Text}
    (hr : rest.head?.any Text.isDecimal = false) : takeDigits (ds ++ rest) = some (ds, rest) := by
  obtain ⟨htake, hdrop⟩ := Text.run_append h.2 hr
  unfold takeDigits
  rw [htake, hdrop]
  cases ds with
  | nil => exact absurd rfl h.1
  | cons d ds => rfl

theorem takeDigits_sound {t ds rest : Text} (h : takeDigits t = some (ds, rest)) :
    Digits ds ∧ t = ds ++ rest := by
  unfold takeDigits at h
  cases ht : t.takeWhile Text.isDecimal with
  | nil => simp [ht] at h
  | cons d r =>
    simp only [ht, Option.some.injEq, Prod.mk.injEq] at h
    obtain ⟨rfl, rfl⟩ := h
    refine ⟨⟨by simp, fun c hc => ?_⟩, ?_⟩
    · rw [← ht] at hc
      exact List.mem_takeWhile_imp hc
    · rw [← ht, List.takeWhile_append_dropWhile]

theorem takeWord_append {w v : Text} (h : v.map Text.fold = w) (rest : Text) :
    takeWord w (v ++ rest) = some (v, rest) := by
  have hl : w.length = v.length := by rw [← h, List.length_map]
  simp [takeWord, hl, h]

theorem takeWord_sound {w t v rest : Text} (h : takeWord w t = some (v, rest)) :
    v.map Text.fold = w ∧ t = v ++ rest := by
  unfold takeWord at h
  by_cases hw : (t.take w.length).map Text.fold = w
  · simp only [hw, if_true, Option.some.injEq, Prod.mk.injEq] at h
    obtain ⟨rfl, rfl⟩ := h
    exact ⟨hw, (List.take_append_drop _ _).symm⟩
  · simp only [hw, if_false, reduceCtorEq] at h

theorem word_ne_nil (s : Severity) : s.word ≠ [] := by cases s <;> decide

theorem head?_severityWord {s : Severity} {v : Text} (h : v.map Text.fold = s.word)
    (rest : Text) : (v ++ rest).head?.map Text.fold = s.word.head? := by
  cases v with
  | nil => exact absurd h.symm (word_ne_nil s)
  | cons c v =>
    rw [← h]
    simp only [List.cons_append, List.head?_cons, List.map_cons, Option.map_some]

theorem word_head_injective {s s' : Severity} (h : s.word.head? = s'.word.head?) : s = s' := by
  revert h
  cases s <;> cases s' <;> decide

theorem takeSeverity_append {s : Severity} {v : Text} (h : v.map Text.fold = s.word)
    (rest : Text) :
    (Severity.all.map Severity.word).findSome? (takeWord · (v ++ rest)) = some (v, rest) := by
  have hs : takeWord s.word (v ++ rest) = some (v, rest) := takeWord_append h rest
  have hne : ∀ s', s' ≠ s → takeWord s'.word (v ++ rest) = none := fun s' hs' => by
    cases ht : takeWord s'.word (v ++ rest) with
    | none => rfl
    | some r =>
      obtain ⟨hw, ht⟩ := takeWord_sound ht
      have hv := head?_severityWord h rest
      rw [ht, head?_severityWord hw r.2] at hv
      exact absurd (word_head_injective hv) hs'
  cases s <;> simp [Severity.all, List.findSome?, hs, hne]

theorem takeSeverity_sound {t v rest : Text}
    (h : (Severity.all.map Severity.word).findSome? (takeWord · t) = some (v, rest)) :
    (∃ s : Severity, v.map Text.fold = s.word) ∧ t = v ++ rest := by
  obtain ⟨w, hw, ht⟩ := List.exists_of_findSome?_eq_some h
  obtain ⟨s, _, rfl⟩ := List.mem_map.1 hw
  obtain ⟨hv, rfl⟩ := takeWord_sound ht
  exact ⟨⟨s, hv⟩, rfl⟩

theorem readHeading_spelled {h : Heading} (hs : h.Spelt) : readHeading h.spelled = some h := by
  obtain ⟨s, hv⟩ := hs.severity
  have hcode : takeDigits (h.code ++ (": ".toList ++ h.message)) =
      some (h.code, ": ".toList ++ h.message) :=
    takeDigits_append hs.code (isDecimal_sign (c := ':') (by simp))
  simp only [readHeading, Heading.spelled, List.append_assoc, takeSeverity_append hv,
    Text.after?_append, hcode, Option.bind_eq_bind, Option.bind_some, Option.pure_def]

theorem readHeading_sound {t : Text} {h : Heading} (hr : readHeading t = some h) :
    h.Spelt ∧ t = h.spelled := by
  simp only [readHeading, Option.bind_eq_bind, Option.bind_eq_some_iff, Option.pure_def,
    Option.some.injEq] at hr
  obtain ⟨⟨severity, t₁⟩, h₁, t₂, h₂, ⟨code, t₃⟩, h₃, message, h₄, rfl⟩ := hr
  obtain ⟨hv, rfl⟩ := takeSeverity_sound h₁
  obtain ⟨hc, ht₂⟩ := takeDigits_sound h₃
  have ht₁ := Text.eq_append_of_after? h₂
  have ht₃ := Text.eq_append_of_after? h₄
  simp only at ht₁ ht₃
  exact ⟨⟨hv, hc⟩, by simp [Heading.spelled, ht₁, ht₂, ht₃]⟩

theorem readMarker_spelled {m : Marker} (hm : m.Spelt) : readMarker m.spelled = some m := by
  have hline : takeDigits (m.line ++ (',' :: m.column ++ "): ".toList ++ m.heading.spelled)) =
      some (m.line, ',' :: m.column ++ "): ".toList ++ m.heading.spelled) :=
    takeDigits_append hm.line (isDecimal_sign (c := ',') (by simp))
  have hcolumn : takeDigits (m.column ++ ("): ".toList ++ m.heading.spelled)) =
      some (m.column, "): ".toList ++ m.heading.spelled) :=
    takeDigits_append hm.column (isDecimal_sign (c := ')') (by simp))
  have hopen : Text.after? "(".toList m.spelled =
      some (m.line ++ (',' :: m.column ++ "): ".toList ++ m.heading.spelled)) := by
    simpa [Marker.spelled] using Text.after?_append "(".toList _
  have hcomma : Text.after? ",".toList (',' :: m.column ++ "): ".toList ++ m.heading.spelled) =
      some (m.column ++ ("): ".toList ++ m.heading.spelled)) := by
    simpa using Text.after?_append ",".toList _
  simp only [readMarker, hopen, hline, hcomma, hcolumn, Text.after?_append,
    readHeading_spelled hm.heading, Option.bind_eq_bind, Option.bind_some, Option.pure_def]

theorem readMarker_sound {t : Text} {m : Marker} (hr : readMarker t = some m) :
    m.Spelt ∧ t = m.spelled := by
  simp only [readMarker, Option.bind_eq_bind, Option.bind_eq_some_iff, Option.pure_def,
    Option.some.injEq] at hr
  obtain ⟨t₁, h₁, ⟨line, t₂⟩, h₂, t₃, h₃, ⟨column, t₄⟩, h₄, t₅, h₅, heading, h₆, rfl⟩ := hr
  have ht := Text.eq_append_of_after? h₁
  obtain ⟨hl, ht₁⟩ := takeDigits_sound h₂
  have ht₂ := Text.eq_append_of_after? h₃
  obtain ⟨hc, ht₃⟩ := takeDigits_sound h₄
  have ht₄ := Text.eq_append_of_after? h₅
  obtain ⟨hh, ht₅⟩ := readHeading_sound h₆
  simp only at ht₂ ht₄
  exact ⟨⟨hl, hc, hh⟩, by simp [Marker.spelled, ht, ht₁, ht₂, ht₃, ht₄, ht₅]⟩

def Marker.mark (m : Marker) : Text :=
  '(' :: m.line ++ ',' :: m.column ++ "): ".toList ++ m.heading.severity ++ " TS".toList ++
    m.heading.code ++ ": ".toList

theorem spelled_eq_mark (m : Marker) : m.spelled = m.mark ++ m.heading.message := by
  simp [Marker.spelled, Marker.mark, Heading.spelled]

theorem not_mem_digits {ds : Text} (h : Digits ds) : '(' ∉ ds := by
  intro hm
  have hd := h.2 '(' hm
  rw [isDecimal_sign (c := '(') (by simp)] at hd
  cases hd

theorem not_mem_severity {s : Severity} {v : Text} (h : v.map Text.fold = s.word) : '(' ∉ v := by
  intro hm
  have hf : Text.fold '(' ∈ s.word := by rw [← h]; exact List.mem_map_of_mem hm
  revert hf
  cases s <;> decide

theorem not_mem_mark_tail {m : Marker} (hm : m.Spelt) : '(' ∉ m.mark.tail := by
  obtain ⟨s, hs⟩ := hm.heading.severity
  simp [Marker.mark, not_mem_digits hm.line, not_mem_digits hm.column,
    not_mem_digits hm.heading.code, not_mem_severity hs]

theorem hasMarker_iff {t : Text} :
    HasMarker t ↔ ∃ b ∈ t.tails, (readMarker b).isSome = true := by
  constructor
  · rintro ⟨m, hm, hs⟩
    exact ⟨m.spelled, (List.mem_tails _ _).2 hs, by rw [readMarker_spelled hm]; rfl⟩
  · rintro ⟨b, hb, hr⟩
    obtain ⟨m, hr⟩ := Option.isSome_iff_exists.1 hr
    obtain ⟨hm, rfl⟩ := readMarker_sound hr
    exact ⟨m, hm, (List.mem_tails _ _).1 hb⟩

instance (t : Text) : Decidable (HasMarker t) := decidable_of_iff _ hasMarker_iff.symm

theorem readMarker_eq_none {t b : Text} (h : ¬ HasMarker t) (hb : b <:+ t) :
    readMarker b = none := by
  cases hr : readMarker b with
  | none => rfl
  | some m => exact absurd (hasMarker_iff.2 ⟨b, (List.mem_tails _ _).2 hb, by simp [hr]⟩) h

theorem hasMarker_of_append {p t : Text} (hp : '(' ∉ p) (h : HasMarker (p ++ t)) :
    HasMarker t := by
  obtain ⟨m, hm, a, ha⟩ := h
  obtain ⟨b, rfl, hb⟩ | ⟨b, rfl, hb⟩ := List.append_eq_append_iff.1 ha
  · cases b with
    | nil => exact ⟨m, hm, [], by simpa using hb⟩
    | cons c b =>
      have hc : c = '(' := by
        rw [spelled_eq_mark, Marker.mark] at hb
        simp at hb
        exact hb.1.symm
      exact absurd (by simp [hc]) hp
  · exact ⟨m, hm, b, hb.symm⟩

theorem hasMarker_mark {m : Marker} (hm : m.Spelt) (y : Text) : HasMarker (m.mark ++ y) := by
  refine ⟨{ m with heading := { m.heading with message := y } }, ⟨hm.line, hm.column, ?_⟩, [], ?_⟩
  · exact ⟨hm.heading.severity, hm.heading.code⟩
  · simp [Marker.spelled, Marker.mark, Heading.spelled]

/-- A marker that begins in a text does not reach across the opening of another. -/
theorem hasMarker_of_readMarker {b r : Text} {m : Marker} (hb : b ≠ [])
    (h : readMarker (b ++ '(' :: r) = some m) : HasMarker b := by
  obtain ⟨hm, ht⟩ := readMarker_sound h
  rw [spelled_eq_mark] at ht
  obtain ⟨x, hx, hr⟩ | ⟨y, rfl, -⟩ := List.append_eq_append_iff.1 ht
  · cases x with
    | nil =>
      have hmark := hasMarker_mark hm []
      rw [hx] at hmark
      simpa using hmark
    | cons c x =>
      -- the other opening would stand inside the mark, which has one at its start only
      have hc : c = '(' := by simp at hr; exact hr.1.symm
      have htail : '(' ∈ m.mark.tail := by
        rw [hx, List.tail_append_of_ne_nil hb, hc]
        simp
      exact absurd htail (not_mem_mark_tail hm)
  · exact hasMarker_mark hm y

theorem splitFile_eq_none {t : Text} (h : ¬ HasMarker t) : splitFile t = none := by
  induction t with
  | nil => rfl
  | cons c t ih =>
    have ht : ¬ HasMarker t := fun ⟨m, hm, hs⟩ =>
      h ⟨m, hm, hs.trans (List.suffix_cons c t)⟩
    simp [splitFile, readMarker_eq_none ht List.suffix_rfl, ih ht]

theorem splitFile_append {file : Text} (hne : file ≠ []) (h : ¬ HasMarker file) {m : Marker}
    (hm : m.Spelt) : splitFile (file ++ m.spelled) = some (file, m) := by
  induction file with
  | nil => exact absurd rfl hne
  | cons c file ih =>
    have hf : ¬ HasMarker file := fun ⟨m, hm, hs⟩ =>
      h ⟨m, hm, hs.trans (List.suffix_cons c file)⟩
    cases file with
    | nil => simp [splitFile, readMarker_spelled hm]
    | cons d file =>
      have hn : readMarker (d :: file ++ m.spelled) = none := by
        cases hr : readMarker (d :: file ++ m.spelled) with
        | none => rfl
        | some m' => exact absurd (hasMarker_of_readMarker (by simp) hr) hf
      have hi := ih (by simp) hf
      simp only [List.cons_append] at hn hi ⊢
      rw [splitFile, hn, hi]
      rfl

theorem colon_mem_of_readHeading {t : Text} {h : Heading} (hr : readHeading t = some h) :
    ':' ∈ t := by
  obtain ⟨_, rfl⟩ := readHeading_sound hr
  simp [Heading.spelled]

theorem colon_mem_of_hasMarker {t : Text} (h : HasMarker t) : ':' ∈ t := by
  obtain ⟨m, _, hs⟩ := h
  exact hs.subset (by simp [Marker.spelled])

theorem read_eq_none {t : Text} (h : ':' ∉ t) : read t = none := by
  have hf : splitFile t = none := splitFile_eq_none fun hm => h (colon_mem_of_hasMarker hm)
  have hh : readHeading t = none := by
    cases hr : readHeading t with
    | none => rfl
    | some g => exact absurd (colon_mem_of_readHeading hr) h
  simp [read, hf, hh]

end Triage.Line
