import Mathlib
import Triage.Diagnostic.Records
import Triage.Proofs.Json.RoundTrip
import Triage.Proofs.Path.Display
import Triage.Proofs.Text.Words

set_option autoImplicit false

/-!
Arrays of diagnostic records, taken whole or not at all. What a record says is told from the values
that it has under its names (`Records.Tells`), what diagnostic it gives from what it says
(`Loose.Gives`); the first severity that is no word in any letter case is the reason to refuse all.
-/

namespace Triage

section Traversals
variable {α β ε : Type}

theorem mapM_eq_some_iff {f : α → Option β} {l : List α} {r : List β} :
    l.mapM f = some r ↔ List.Forall₂ (fun a b => f a = some b) l r := by
  induction l generalizing r with
  | nil => cases r <;> simp
  | cons a l ih =>
    rw [List.mapM_cons]
    cases ha : f a with
    | none => cases r <;> simp [ha]
    | some b =>
      cases hl : l.mapM f with
      | none => cases r <;> simp [ha, ← ih, hl]
      | some s => cases r <;> simp [ha, ← ih, hl]

theorem mapM_isSome {f : α → Option β} {l : List α} :
    (∃ r, l.mapM f = some r) ↔ ∀ a ∈ l, (f a).isSome = true := by
  induction l with
  | nil => simp
  | cons a l ih =>
    rw [List.mapM_cons, List.forall_mem_cons, ← ih]
    cases f a <;> cases l.mapM f <;> simp

variable {f : α → Except ε β} {l : List α}

theorem mapM_eq_ok_iff {r : List β} :
    l.mapM f = .ok r ↔ List.Forall₂ (fun a b => f a = .ok b) l r := by
  induction l generalizing r with
  | nil => cases r <;> simp [pure, Except.pure]
  | cons a l ih =>
    rw [List.mapM_cons]
    cases ha : f a with
    | error e => cases r <;> simp [bind, Except.bind, ha]
    | ok b =>
      cases hl : l.mapM f with
      | error e => cases r <;> simp [bind, Except.bind, ha, ← ih, hl]
      | ok s => cases r <;> simp [bind, Except.bind, pure, Except.pure, ha, ← ih, hl]

theorem mapM_eq_error_iff {e : ε} :
    l.mapM f = .error e ↔ ∃ before a after, l = before ++ a :: after ∧
      (∀ b ∈ before, ∃ c, f b = .ok c) ∧ f a = .error e := by
  induction l with
  | nil => simp [pure, Except.pure]
  | cons a l ih =>
    rw [List.mapM_cons]
    cases ha : f a with
    | error e' =>
      constructor
      · rintro ⟨⟩
        exact ⟨[], a, l, rfl, by simp, ha⟩
      · rintro ⟨before, b, after, hl, hbefore, hb⟩
        cases before with
        | nil =>
          cases hl
          rw [← ha, hb]
          rfl
        | cons c before =>
          obtain ⟨c', hc⟩ := hbefore c (by simp)
          rw [(List.cons.inj hl).1, hc] at ha
          cases ha
    | ok b =>
      have hmap : (do let r ← l.mapM f; pure (b :: r) : Except ε (List β)) = .error e ↔
          l.mapM f = .error e := by
        cases l.mapM f <;> simp [bind, Except.bind, pure, Except.pure]
      refine hmap.trans (ih.trans ⟨?_, ?_⟩)
      · rintro ⟨before, c, after, rfl, hbefore, hc⟩
        exact ⟨a :: before, c, after, rfl, List.forall_mem_cons.2 ⟨⟨b, ha⟩, hbefore⟩, hc⟩
      · rintro ⟨before, c, after, hl, hbefore, hc⟩
        cases before with
        | nil =>
          rw [← (List.cons.inj hl).1, ha] at hc
          cases hc
        | cons d before =>
          exact ⟨before, c, after, (List.cons.inj hl).2, (List.forall_mem_cons.1 hbefore).2, hc⟩

end Traversals

namespace Records
open Json

/-- The values that a record has for a field: under its name, or at its place. -/
def held (name : Text) (place : Nat) : Json → List Json
  | .object ms => (ms.filter fun m => unescape m.1 = some name).map (·.2)
  | .array xs => xs[place]?.toList
  | _ => []

def Shaped (fields : Nat) : Json → Prop
  | .object ms => ∀ m ∈ ms, (unescape m.1).isSome = true
  | .array xs => xs.length ≤ fields
  | _ => False

def SpellsText (j : Json) (t : Text) : Prop := ∃ s, j = .string s ∧ unescape s = some t

def SpellsWord (j : Json) (w : UInt32) : Prop := j = ofNat w.toNat

inductive Maybe {α : Type} (spells : Json → α → Prop) : List Json → Option α → Prop
  | absent : Maybe spells [] none
  | null : Maybe spells [.null] none
  | given {j : Json} {a : α} (h : spells j a) : Maybe spells [j] (some a)

inductive Once {α : Type} (spells : Json → α → Prop) : List Json → α → Prop
  | given {j : Json} {a : α} (h : spells j a) : Once spells [j] a

inductive OrEmpty (spells : Json → Text → Prop) : List Json → Text → Prop
  | absent : OrEmpty spells [] []
  | given {j : Json} {t : Text} (h : spells j t) : OrEmpty spells [j] t

structure Tells (j : Json) (r : Loose) : Prop where
  shaped : Shaped 6 j
  file : Maybe SpellsText (held "file".toList 0 j) r.file
  line : Maybe SpellsWord (held "line".toList 1 j) r.line
  column : Maybe SpellsWord (held "column".toList 2 j) r.column
  code : Once SpellsWord (held "code".toList 3 j) r.code
  severity : Once SpellsText (held "category".toList 4 j) r.severity
  message : OrEmpty SpellsText (held "message".toList 5 j) r.message

section Lengths
variable {α : Type} {spells : Json → α → Prop} {vs : List Json}

theorem Maybe.length_le {o : Option α} (h : Maybe spells vs o) : vs.length ≤ 1 := by
  cases h <;> simp

theorem Once.length_le {a : α} (h : Once spells vs a) : vs.length ≤ 1 := by
  cases h
  simp

theorem OrEmpty.length_le {spells : Json → Text → Prop} {t : Text} (h : OrEmpty spells vs t) :
    vs.length ≤ 1 := by
  cases h <;> simp

end Lengths

section Slots
variable {names : List Text} {j : Json} {ss : List Slot}

inductive Holds : Slot → List Json → Prop
  | given (j : Json) : Holds (.given j) [j]
  | absent : Holds .absent []
  | cut : Holds .cut []

theorem filter_named {ms named : List (Text × Json)}
    (h : ms.mapM (fun m => (unescape m.1).map (·, m.2)) = some named) (name : Text) :
    (named.filter (·.1 = name)).map (·.2) =
      (ms.filter fun m => unescape m.1 = some name).map (·.2) := by
  rw [mapM_eq_some_iff] at h
  induction h with
  | nil => rfl
  | @cons m n ms named hm _ ih =>
    obtain ⟨k, hk, rfl⟩ := Option.map_eq_some_iff.1 hm
    by_cases hn : k = name <;> simp [hk, hn, ih]

theorem holds_of_slots (h : slots names j = some ss) :
    List.Forall₂ Holds ss (names.mapIdx fun i name => held name i j) := by
  cases j with
  | array xs =>
    simp only [slots] at h
    split at h
    · next hx =>
      cases h
      refine List.forall₂_iff_get.2 ⟨by simp; omega, fun i h₁ h₂ => ?_⟩
      simp only [List.get_eq_getElem, List.getElem_mapIdx, held]
      by_cases hi : i < xs.length
      · rw [List.getElem_append_left (by simpa using hi)]
        simpa [hi] using Holds.given xs[i]
      · rw [List.getElem_append_right (by simpa using hi)]
        simpa [hi] using Holds.cut
    · cases h
  | object ms =>
    simp only [slots, Option.bind_eq_bind, Option.bind_eq_some_iff] at h
    obtain ⟨named, hm, hn⟩ := h
    have hn := mapM_eq_some_iff.1 hn
    refine List.forall₂_iff_get.2 ⟨by simpa using hn.length_eq.symm, fun i h₁ h₂ => ?_⟩
    have hi : i < names.length := by simpa using h₂
    have hs := hn.get hi h₁
    simp only [List.get_eq_getElem, List.getElem_mapIdx, held] at hs ⊢
    rw [← filter_named hm]
    split at hs
    · next he =>
      rw [← Option.some.inj hs]
      simpa [he] using Holds.absent
    · next v he =>
      rw [← Option.some.inj hs]
      simpa [he] using Holds.given v
    · cases hs
  | _ => simp [slots] at h

theorem shaped_of_slots (h : slots names j = some ss) : Shaped names.length j := by
  cases j with
  | array xs =>
    simp only [slots] at h
    split at h
    · next hx => exact hx
    · cases h
  | object ms =>
    simp only [slots, Option.bind_eq_bind, Option.bind_eq_some_iff] at h
    obtain ⟨named, hm, -⟩ := h
    intro m hmem
    simpa using mapM_isSome.1 ⟨named, hm⟩ m hmem
  | _ => simp [slots] at h

theorem exists_slots (h : Shaped names.length j)
    (hl : ∀ vs ∈ names.mapIdx fun i name => held name i j, vs.length ≤ 1) :
    ∃ ss, slots names j = some ss := by
  cases j with
  | array xs => exact ⟨_, if_pos h⟩
  | object ms =>
    obtain ⟨named, hm⟩ :
        ∃ named, ms.mapM (fun m => (unescape m.1).map (·, m.2)) = some named :=
      mapM_isSome.2 fun m hmem => by simpa using h m hmem
    simp only [slots, hm, Option.bind_eq_bind, Option.bind_some]
    refine mapM_isSome.2 fun name hname => ?_
    obtain ⟨i, hi, rfl⟩ := List.mem_iff_getElem.1 hname
    have hf := hl _ (List.mem_mapIdx.2 ⟨i, hi, rfl⟩)
    rw [held, ← filter_named hm] at hf
    -- with at most one member of that name, no branch refuses
    split
    · rfl
    · rfl
    · next h₀ h₁ =>
      cases hn : named.filter (·.1 = names[i]) with
      | nil => exact absurd hn h₀
      | cons m rest =>
        cases rest with
        | nil => exact absurd hn (h₁ m.1 m.2)
        | cons m' rest => simp [hn] at hf
  | _ => exact h.elim

end Slots

section Fields
variable {α : Type} {d : Decoder α} {spells : Json → α → Prop} {slot : Slot} {vs : List Json}

theorem text_iff {j : Json} {t : Text} : text j = some t ↔ SpellsText j t := by
  cases j <;> simp [text, SpellsText]

theorem word_iff {j : Json} {w : UInt32} : word j = some w ↔ SpellsWord j w := by
  cases j <;> simp [word, SpellsWord, ofNat, plainWord?_eq_some_iff]

theorem required_iff (hd : ∀ {j a}, d j = some a ↔ spells j a) (h : Holds slot vs) {a : α} :
    slot.required d = some a ↔ Once spells vs a := by
  cases h with
  | given j => exact hd.trans ⟨.given, fun | .given h => h⟩
  | absent => exact ⟨nofun, nofun⟩
  | cut => exact ⟨nofun, nofun⟩

theorem optional_iff (hd : ∀ {j a}, d j = some a ↔ spells j a) (hn : d .null = none)
    (h : Holds slot vs) {o : Option α} :
    slot.optionalAnywhere d = some o ↔ Maybe spells vs o := by
  cases h with
  | given j =>
    by_cases hj : j = .null
    · subst hj
      constructor
      · rintro ⟨⟩
        exact .null
      · rintro (_ | _ | h)
        · rfl
        · rw [hd.2 h] at hn
          cases hn
    · change (Slot.given j).optional d = some o ↔ _
      rw [optional_given d hj, Option.map_eq_some_iff]
      constructor
      · rintro ⟨a, ha, rfl⟩
        exact .given (hd.1 ha)
      · rintro (_ | _ | h)
        · exact absurd rfl hj
        · exact ⟨_, hd.2 h, rfl⟩
  | absent =>
    constructor
    · rintro ⟨⟩
      exact .absent
    · rintro ⟨⟩
      rfl
  | cut =>
    constructor
    · rintro ⟨⟩
      exact .absent
    · rintro ⟨⟩
      rfl

theorem orElse_iff {d : Decoder Text} {spells : Json → Text → Prop}
    (hd : ∀ {j t}, d j = some t ↔ spells j t) (h : Holds slot vs) {t : Text} :
    slot.orElse d [] = some t ↔ OrEmpty spells vs t := by
  cases h with
  | given j => exact hd.trans ⟨.given, fun | .given h => h⟩
  | absent => exact ⟨by rintro ⟨⟩; exact .absent, by rintro ⟨⟩; rfl⟩
  | cut => exact ⟨by rintro ⟨⟩; exact .absent, by rintro ⟨⟩; rfl⟩

end Fields

theorem exists_fields {j : Json} {ss : List Slot} (h : slots Diagnostic.fieldNames j = some ss) :
    ∃ file line column code severity message,
      ss = [file, line, column, code, severity, message] ∧
      Holds file (held "file".toList 0 j) ∧ Holds line (held "line".toList 1 j) ∧
      Holds column (held "column".toList 2 j) ∧ Holds code (held "code".toList 3 j) ∧
      Holds severity (held "category".toList 4 j) ∧ Holds message (held "message".toList 5 j) := by
  have hs := holds_of_slots h
  simp only [Diagnostic.fieldNames, List.mapIdx_cons, List.mapIdx_nil] at hs
  obtain _ | ⟨h₀, _ | ⟨h₁, _ | ⟨h₂, _ | ⟨h₃, _ | ⟨h₄, _ | ⟨h₅, ⟨⟩⟩⟩⟩⟩⟩⟩ := hs
  exact ⟨_, _, _, _, _, _, rfl, h₀, h₁, h₂, h₃, h₄, h₅⟩

/-- A record is read exactly where it is well typed, and then as what it says. -/
theorem ofJson_iff {j : Json} {r : Loose} : Loose.ofJson j = some r ↔ Tells j r := by
  constructor
  · intro h
    simp only [Loose.ofJson, Option.bind_eq_bind, Option.bind_eq_some_iff] at h
    obtain ⟨ss, hs, h⟩ := h
    obtain ⟨file, line, column, code, severity, message, rfl, h₀, h₁, h₂, h₃, h₄, h₅⟩ :=
      exists_fields hs
    simp only [Option.bind_eq_some_iff] at h
    obtain ⟨f, hf, l, hl, c, hc, k, hk, s, hsev, m, hm, h⟩ := h
    obtain rfl := Option.some.inj h
    exact ⟨shaped_of_slots hs, (optional_iff text_iff rfl h₀).1 hf,
      (optional_iff word_iff rfl h₁).1 hl, (optional_iff word_iff rfl h₂).1 hc,
      (required_iff word_iff h₃).1 hk, (required_iff text_iff h₄).1 hsev,
      (orElse_iff text_iff h₅).1 hm⟩
  · intro h
    obtain ⟨ss, hs⟩ : ∃ ss, slots Diagnostic.fieldNames j = some ss := by
      refine exists_slots h.shaped ?_
      simp only [Diagnostic.fieldNames, List.mapIdx_cons, List.mapIdx_nil, List.forall_mem_cons]
      exact ⟨h.file.length_le, h.line.length_le, h.column.length_le, h.code.length_le,
        h.severity.length_le, h.message.length_le, List.forall_mem_nil _⟩
    obtain ⟨file, line, column, code, severity, message, rfl, h₀, h₁, h₂, h₃, h₄, h₅⟩ :=
      exists_fields hs
    have hfile := (optional_iff text_iff rfl h₀).2 h.file
    have hline := (optional_iff word_iff rfl h₁).2 h.line
    have hcolumn := (optional_iff word_iff rfl h₂).2 h.column
    have hcode := (required_iff word_iff h₃).2 h.code
    have hseverity := (required_iff text_iff h₄).2 h.severity
    have hmessage := (orElse_iff text_iff h₅).2 h.message
    simp [Loose.ofJson, hs, hfile, hline, hcolumn, hcode, hseverity, hmessage]

section Whole
variable {base : Text} {r : Loose} {rs : List Loose} {d : Diagnostic} {e : Error}

def Loose.Known (r : Loose) : Prop := ∃ s : Severity, Text.AnyCase r.severity s.word

structure Loose.Gives (base : Text) (r : Loose) (d : Diagnostic) : Prop where
  file : d.file = r.file.map (resolve base)
  line : d.line = r.line
  column : d.column = r.column
  code : d.code = r.code
  severity : Text.AnyCase r.severity d.severity.word
  message : d.message = r.message

theorem diagnostic_ok_iff : r.diagnostic base = .ok d ↔ r.Gives base d := by
  unfold Loose.diagnostic
  constructor
  · intro h
    cases hs : Severity.ofAnyCase? r.severity with
    | none => simp [hs] at h
    | some s =>
      obtain rfl : _ = d := by simpa [hs] using h
      exact ⟨rfl, rfl, rfl, rfl, Severity.ofAnyCase?_eq_some_iff.1 hs, rfl⟩
  · intro h
    rw [Severity.ofAnyCase?_eq_some_iff.2 h.severity, ← h.file, ← h.line, ← h.column, ← h.code,
      ← h.message]

theorem diagnostic_error_iff :
    r.diagnostic base = .error e ↔ ¬ r.Known ∧ e = .unknownSeverity r.severity := by
  have hk : r.Known ↔ ∃ s, Severity.ofAnyCase? r.severity = some s :=
    exists_congr fun s => Severity.ofAnyCase?_eq_some_iff.symm
  rw [hk]
  unfold Loose.diagnostic
  cases Severity.ofAnyCase? r.severity <;> simp [eq_comm]

theorem known_iff : r.Known ↔ ∃ d, r.diagnostic base = .ok d := by
  cases h : r.diagnostic base with
  | ok d => exact ⟨fun _ => ⟨d, rfl⟩, fun _ => ⟨d.severity, (diagnostic_ok_iff.1 h).severity⟩⟩
  | error e => exact ⟨fun hk => absurd hk (diagnostic_error_iff.1 h).1, nofun⟩

def Loose.ofDiagnostic (d : Diagnostic) : Loose :=
  ⟨d.file, d.line, d.column, d.code, d.severity.word, d.message⟩

theorem ofJson_toJson (d : Diagnostic) :
    Loose.ofJson d.toJson = some (Loose.ofDiagnostic d) := by
  have hfile := restores_option restores_text (fun _ => nofun) d.file
  have hline := restores_option restores_word (fun _ => nofun) d.line
  have hcolumn := restores_option restores_word (fun _ => nofun) d.column
  have hcode := restores_word d.code
  have hseverity : text d.severity.toJson = some d.severity.word :=
    (restores_text d.severity.word).decode
  have hmessage := restores_text d.message
  have hany {α : Type} (c : Decoder α) (j : Json) :
      (Slot.given j).optionalAnywhere c = (Slot.given j).optional c := rfl
  have hor (j : Json) : (Slot.given j).orElse text [] = text j := rfl
  simp [Loose.ofJson, slots_diagnostic, hany, hor, required_given, hfile.decode, hline.decode,
    hcolumn.decode, hcode.decode, hseverity, hmessage.decode, Loose.ofDiagnostic]

theorem gives_ofDiagnostic
    (h : ∀ file, d.file = some file → file.head? = some '/' ∧ normalized file = file) :
    (Loose.ofDiagnostic d).Gives base d where
  file := by
    cases hf : d.file with
    | none => simp [Loose.ofDiagnostic, hf]
    | some file =>
      obtain ⟨hroot, hnormal⟩ := h file hf
      simp [Loose.ofDiagnostic, hf, resolve_rooted base hroot, hnormal]
  line := rfl
  column := rfl
  code := rfl
  severity := by
    rw [← Severity.ofAnyCase?_eq_some_iff]
    cases hs : d.severity <;> simp only [Loose.ofDiagnostic, hs] <;> decide
  message := rfl

theorem read_of_records {t : Text} {js : List Json} (ht : Json.read t = some (.array js))
    (hr : js.mapM Loose.ofJson = some rs) : read base t = rs.mapM (Loose.diagnostic base) := by
  simp only [read, ht, Option.bind_some, list, hr]

/-- Diagnostics in an array of records are taken as they are, whatever the base. An array of
well-typed records is taken whole, or refused for the first severity that is unknown. -/
theorem read_records (base : Text) :
    (∀ (l : Layout) (depth : Nat) (ds : List Diagnostic), l.Blank →
      (∀ d ∈ ds, ∀ file, d.file = some file → file.head? = some '/' ∧ normalized file = file) →
      read base ((Json.array (ds.map Diagnostic.toJson)).write l depth) = .ok ds) ∧
    ∀ (t : Text) (js : List Json) (rs : List Loose), Json.read t = some (.array js) →
      List.Forall₂ Tells js rs →
      (∀ e, read base t = .error e ↔ ∃ before r after, rs = before ++ r :: after ∧
        (∀ p ∈ before, p.Known) ∧ ¬ r.Known ∧ e = .unknownSeverity r.severity) ∧
      ∀ ds, read base t = .ok ds ↔ List.Forall₂ (Loose.Gives base) rs ds := by
  refine ⟨fun l depth ds hl hds => ?_, fun t js rs ht hr => ?_⟩
  · have hw : Json.read ((Json.array (ds.map Diagnostic.toJson)).write l depth) =
        some (.array (ds.map Diagnostic.toJson)) := by
      have hs : (Json.array (ds.map Diagnostic.toJson)).Spelt := .array fun j hj => by
        obtain ⟨d, -, rfl⟩ := List.mem_map.1 hj
        exact (restores_diagnostic d).spelt
      simpa using read_write hl hs depth (g := []) rfl
    have hr : (ds.map Diagnostic.toJson).mapM Loose.ofJson =
        some (ds.map Loose.ofDiagnostic) := mapM_map fun d _ => ofJson_toJson d
    rw [read_of_records hw hr, mapM_eq_ok_iff, List.forall₂_map_left_iff, List.forall₂_same]
    exact fun d hd => diagnostic_ok_iff.2 (gives_ofDiagnostic (hds d hd))
  · have hm : js.mapM Loose.ofJson = some rs :=
      mapM_eq_some_iff.2 (hr.imp fun _ _ => ofJson_iff.2)
    rw [read_of_records ht hm]
    refine ⟨fun e => ?_, fun ds => ?_⟩
    · simp only [mapM_eq_error_iff, ← known_iff, diagnostic_error_iff]
    · simp only [mapM_eq_ok_iff, diagnostic_ok_iff]

/-- A message with a quote in it, written and read. Then a record with a null and a field of
another kind, in front of one given by its places whose severity is unknown. -/
theorem read_records_refused :
    let d : Diagnostic := ⟨some "/r/a.ts".toList, some 1, none, 7, .message, "\"".toList⟩
    read "/r".toList (Json.array [d.toJson]).pretty = .ok [d] ∧
      read "/r".toList "[\x7b\"code\":7,\"line\":null,\"tags\":[],\"category\":\"eRRor\"\x7d,
        [null,3,4,8,\"hint\"]]".toList = .error (.unknownSeverity "hint".toList) := by
  intro d
  obtain ⟨hwritten, hread⟩ := read_records "/r".toList
  constructor
  · refine hwritten .pretty 0 [d] Layout.blank_pretty fun e he file hf => ?_
    obtain rfl := List.mem_singleton.1 he
    obtain rfl := Option.some.inj hf
    decide
  · have ht : Json.read "[\x7b\"code\":7,\"line\":null,\"tags\":[],\"category\":\"eRRor\"\x7d,
        [null,3,4,8,\"hint\"]]".toList = some (.array [
          .object [("code".toList, ofNat 7), ("line".toList, .null), ("tags".toList, .array []),
            ("category".toList, ofText "eRRor".toList)],
          .array [.null, ofNat 3, ofNat 4, ofNat 8, ofText "hint".toList]]) := by cbv
    have hr : List.Forall₂ Tells
        [.object [("code".toList, ofNat 7), ("line".toList, .null), ("tags".toList, .array []),
          ("category".toList, ofText "eRRor".toList)],
          .array [.null, ofNat 3, ofNat 4, ofNat 8, ofText "hint".toList]]
        [⟨none, none, none, 7, "eRRor".toList, []⟩,
          ⟨none, some 3, some 4, 8, "hint".toList, []⟩] :=
      .cons (ofJson_iff.1 (by decide)) (.cons (ofJson_iff.1 (by decide)) .nil)
    have hknown : Loose.Known ⟨none, none, none, 7, "eRRor".toList, []⟩ :=
      ⟨.error, Severity.ofAnyCase?_eq_some_iff.1 (by decide)⟩
    have hunknown : ¬ Loose.Known ⟨none, some 3, some 4, 8, "hint".toList, []⟩ := by
      rintro ⟨s, hs⟩
      have hn : Severity.ofAnyCase? "hint".toList = none := by decide
      rw [Severity.ofAnyCase?_eq_some_iff.2 hs] at hn
      cases hn
    exact ((hread _ _ _ ht hr).1 _).2 ⟨[_], _, [], rfl, List.forall_mem_singleton.2 hknown,
      hunknown, rfl⟩

end Whole
end Records
end Triage
