import Triage.Proofs.Diagnostic.Records
import Triage.Proofs.Settings.Document
import Triage.Proofs.Toml.Insertion

set_option autoImplicit false

namespace Triage.Settings
open Toml

inductive Group where
  | output | compiler | sources
  deriving DecidableEq, Repr

inductive Setting where
  | stem
  | logging | summary | alwaysSucceed
  | command | format | messages
  | discover | patterns
  deriving DecidableEq, Repr

def Group.name : Group → Text
  | .output => "output".toList
  | .compiler => "compiler".toList
  | .sources => "sources".toList

def Group.keys : Group → List Text
  | .output => ["diagnostic_logging".toList, "summary".toList, "exit_code_zero".toList]
  | .compiler => ["command".toList, "format".toList, "messages".toList]
  | .sources => ["discover".toList, "patterns".toList]

def Setting.group : Setting → Option Group
  | .stem => none
  | .logging | .summary | .alwaysSucceed => some .output
  | .command | .format | .messages => some .compiler
  | .discover | .patterns => some .sources

def Setting.key : Setting → Text
  | .stem => "attr_prefix".toList
  | .logging => "diagnostic_logging".toList
  | .summary => "summary".toList
  | .alwaysSucceed => "exit_code_zero".toList
  | .command => "command".toList
  | .format => "format".toList
  | .messages => "messages".toList
  | .discover => "discover".toList
  | .patterns => "patterns".toList

def Setting.path (x : Setting) : List Text := x.group.toList.map Group.name

/-- What a record gives under a name, by the name or by its place among the names. -/
def field? (names : List Text) (name : Text) : Toml → Option Toml
  | .table _ ms => member? ms name
  | .array xs => xs[names.idxOf name]?
  | .tables ts => ts[names.idxOf name]?.map (.table .header)
  | _ => none

/-- What a document gives for a setting. -/
def Setting.given (x : Setting) (ms : Members) : Option Toml :=
  match x.group with
  | none => member? ms x.key
  | some g => (member? ms g.name).bind (field? g.keys x.key)

inductive Value where
  | text (t : Text)
  | flag (b : Bool)
  | texts (ts : List Text)
  | mode (m : SummaryMode)
  | format (f : InputFormat)
  | path (p : Option Text)
  deriving DecidableEq, Repr

def Setting.value (x : Setting) (s : Settings) : Value :=
  match x with
  | .stem => .text s.stem
  | .logging => .flag s.output.logging
  | .summary => .mode s.output.summary
  | .alwaysSucceed => .flag s.output.alwaysSucceed
  | .command => .texts s.compiler.command
  | .format => .format s.compiler.format
  | .messages => .path s.compiler.messages
  | .discover => .flag s.sources.discover
  | .patterns => .texts s.sources.patterns

/-- A word stands alone or as the only key of a table, with nothing below it. -/
inductive Spells (w : Text) : Toml → Prop
  | alone : Spells w (.string w)
  | key {o : Origin} {v : Toml} (h : isVacant v = true) : Spells w (.table o [(w, v)])

/-- How values are written. There is no way to write that there is no path. -/
inductive Written : Value → Toml → Prop
  | text (t : Text) : Written (.text t) (.string t)
  | flag (b : Bool) : Written (.flag b) (.boolean b)
  | texts (ts : List Text) : Written (.texts ts) (.array (ts.map .string))
  | mode {m : SummaryMode} {v : Toml} (h : Spells m.word v) : Written (.mode m) v
  | format {f : InputFormat} {v : Toml} (h : Spells f.word v) : Written (.format f) v
  | path (t : Text) : Written (.path (some t)) (.string t)

/-- A value is the one that is given or, with none given, the default. -/
def Told (x default : Value) : Option Toml → Prop
  | some v => Written x v
  | none => x = default

def Setting.Holds (x : Setting) (s : Settings) : Option Toml → Prop :=
  Told (x.value s) (x.value .default)

/-- The value of a setting that its group leaves out. -/
def Setting.leftOut : Setting → Value
  | .stem => .text defaultStem
  | .logging => .flag Output.loggingDefault
  | .summary => .mode Output.summaryDefault
  | .alwaysSucceed => .flag Output.alwaysSucceedDefault
  | .command => .texts Compiler.commandDefault
  | .format => .format Compiler.formatDefault
  | .messages => .path Compiler.messagesDefault
  | .discover => .flag Sources.discoverDefault
  | .patterns => .texts Sources.patternsDefault

/-- It makes no difference whether a setting is left out alone or together with its group. -/
theorem Setting.leftOut_eq (x : Setting) : x.leftOut = x.value .default := by
  cases x <;> rfl

section Decoders
variable {v : Toml} {w : Option Toml}

theorem text_iff {t : Text} : text v = some t ↔ Written (.text t) v := by
  constructor
  · intro h
    cases v with
    | string => cases h; exact .text t
    | _ => cases h
  · rintro ⟨⟩
    rfl

theorem flag_iff {b : Bool} : flag v = some b ↔ Written (.flag b) v := by
  constructor
  · intro h
    cases v with
    | boolean => cases h; exact .flag _
    | _ => cases h
  · rintro ⟨⟩
    rfl

theorem texts_iff {ts : List Text} : texts v = some ts ↔ Written (.texts ts) v := by
  constructor
  · intro h
    cases v with
    | array xs =>
      have hxs : xs = ts.map .string := by
        have hall : List.Forall₂ (fun x t => x = .string t) xs ts :=
          (mapM_eq_some_iff.1 h).imp fun _ _ ht => by cases text_iff.1 ht; rfl
        rwa [← List.forall₂_eq_eq_eq, List.forall₂_map_right_iff]
      rw [hxs]
      exact .texts ts
    | _ => cases h
  · rintro ⟨⟩
    exact texts_array ts

theorem oneOf_iff {α : Type} {ofWord? : Text → Option α} {word : α → Text}
    (hread : ∀ {t a}, ofWord? t = some a → word a = t) (hword : ∀ a, ofWord? (word a) = some a)
    {a : α} :
    oneOf ofWord? v = some a ↔ Spells (word a) v := by
  constructor
  · intro h
    unfold oneOf at h
    split at h
    · cases hread h
      exact .alone
    · next o k v =>
      split at h
      · next hv =>
        cases hread h
        exact .key hv
      · cases h
    · cases h
  · rintro (_ | hv)
    · exact hword a
    · rw [oneOf, if_pos hv]
      exact hword a

theorem orElse_iff {α : Type} {d : Decoder α} {k : α → Value} {a a₀ : α}
    (hd : ∀ {v}, d v = some a ↔ Written (k a) v) (hk : k a = k a₀ → a = a₀) :
    orElse d a₀ w = some a ↔ Told (k a) (k a₀) w := by
  cases w with
  | none => exact ⟨fun h => congrArg k (Option.some.inj h).symm, fun h => congrArg some (hk h).symm⟩
  | some v => exact hd

theorem mode_iff {m : SummaryMode} :
    oneOf SummaryMode.ofWord? v = some m ↔ Written (.mode m) v := by
  rw [oneOf_iff (fun h => by simpa using List.find?_some h) SummaryMode.ofWord?_word]
  exact ⟨.mode, fun h => by cases h; assumption⟩

theorem format_iff {f : InputFormat} :
    oneOf InputFormat.ofWord? v = some f ↔ Written (.format f) v := by
  rw [oneOf_iff (fun h => by simpa using List.find?_some h) InputFormat.ofWord?_word]
  exact ⟨.format, fun h => by cases h; assumption⟩

theorem path_iff {p : Option Text} : (text v).map some = some p ↔ Written (.path p) v := by
  constructor
  · intro h
    obtain ⟨t, ht, rfl⟩ := Option.map_eq_some_iff.1 h
    cases text_iff.1 ht
    exact .path t
  · rintro ⟨⟩
    rfl

end Decoders

section Records
variable {v : Toml} {names : List Text} {w : Option Toml}

def isRecord : Toml → Bool
  | .table _ _ | .array _ | .tables _ | .datetime _ => true
  | _ => false

theorem slots_positional {α : Type} (hn : names.Nodup) (f : α → Toml) (xs : List α) :
    (xs.take names.length).map (fun x => some (f x)) ++
        List.replicate (names.length - xs.length) none =
      names.map fun name => xs[names.idxOf name]?.map f := by
  apply List.ext_getElem
  · simp
    omega
  · intro i _ hi
    have hi : i < names.length := by simpa using hi
    have hidx : names.idxOf names[i] = i := hn.idxOf_getElem i hi
    by_cases hx : i < xs.length <;> simp [List.getElem_append, hidx, hx, hi]

theorem slots_eq (hn : names.Nodup) (v : Toml) :
    slots names v = if isRecord v then some (names.map (field? names · v)) else none := by
  cases v with
  | array xs => simpa [slots, isRecord, field?] using slots_positional hn id xs
  | tables ts => exact congrArg some (slots_positional hn (.table .header) ts)
  | _ => rfl

variable {s : Settings} {P : Setting → Prop}

theorem Group.forall_output : (∀ x, x.group = some .output → P x) ↔
    P .logging ∧ P .summary ∧ P .alwaysSucceed := by
  refine ⟨fun h => ⟨h _ rfl, h _ rfl, h _ rfl⟩, ?_⟩
  rintro ⟨hl, hs, ha⟩ x hx
  cases x <;> first | assumption | cases hx

theorem Group.forall_compiler : (∀ x, x.group = some .compiler → P x) ↔
    P .command ∧ P .format ∧ P .messages := by
  refine ⟨fun h => ⟨h _ rfl, h _ rfl, h _ rfl⟩, ?_⟩
  rintro ⟨hc, hf, hm⟩ x hx
  cases x <;> first | assumption | cases hx

theorem Group.forall_sources : (∀ x, x.group = some .sources → P x) ↔
    P .discover ∧ P .patterns := by
  refine ⟨fun h => ⟨h _ rfl, h _ rfl⟩, ?_⟩
  rintro ⟨hd, hp⟩ x hx
  cases x <;> first | assumption | cases hx

/-- A record of a group gives the settings of the group, each by its own field. -/
def Gives (g : Group) (s : Settings) (v : Toml) : Prop :=
  isRecord v = true ∧ ∀ x : Setting, x.group = some g → x.Holds s (field? g.keys x.key v)

theorem bind_three_iff {α β γ ρ : Type} {f : α → β → γ → ρ} (a : Option α) (b : Option β)
    (c : Option γ) {x : α} {y : β} {z : γ} (hf : ∀ {x' y' z'}, f x' y' z' = f x y z →
      x' = x ∧ y' = y ∧ z' = z) :
    (do let x ← a; let y ← b; let z ← c; return f x y z) = some (f x y z) ↔
      a = some x ∧ b = some y ∧ c = some z := by
  constructor
  · intro h
    obtain ⟨x', hx, h⟩ := Option.bind_eq_some_iff.1 h
    obtain ⟨y', hy, h⟩ := Option.bind_eq_some_iff.1 h
    obtain ⟨z', hz, h⟩ := Option.bind_eq_some_iff.1 h
    obtain ⟨rfl, rfl, rfl⟩ := hf (Option.some.inj h)
    exact ⟨hx, hy, hz⟩
  · rintro ⟨rfl, rfl, rfl⟩
    rfl

theorem bind_two_iff {α β ρ : Type} {f : α → β → ρ} (a : Option α) (b : Option β) {x : α} {y : β}
    (hf : ∀ {x' y'}, f x' y' = f x y → x' = x ∧ y' = y) :
    (do let x ← a; let y ← b; return f x y) = some (f x y) ↔ a = some x ∧ b = some y := by
  constructor
  · intro h
    obtain ⟨x', hx, h⟩ := Option.bind_eq_some_iff.1 h
    obtain ⟨y', hy, h⟩ := Option.bind_eq_some_iff.1 h
    obtain ⟨rfl, rfl⟩ := hf (Option.some.inj h)
    exact ⟨hx, hy⟩
  · rintro ⟨rfl, rfl⟩
    rfl

theorem Setting.holds_iff (x : Setting) (s : Settings) (w : Option Toml) :
    Told (x.value s) x.leftOut w ↔ x.Holds s w := by
  rw [Holds, leftOut_eq]

theorem Output.ofToml_iff : Output.ofToml v = some s.output ↔ Gives .output s v := by
  have hlogging (w : Option Toml) : orElse flag loggingDefault w = some s.output.logging ↔
      Setting.logging.Holds s w :=
    (orElse_iff flag_iff Value.flag.inj).trans (Setting.holds_iff .logging s w)
  have hsummary (w : Option Toml) : orElse (oneOf SummaryMode.ofWord?) summaryDefault w =
      some s.output.summary ↔ Setting.summary.Holds s w :=
    (orElse_iff mode_iff Value.mode.inj).trans (Setting.holds_iff .summary s w)
  have hsucceed (w : Option Toml) : orElse flag alwaysSucceedDefault w =
      some s.output.alwaysSucceed ↔ Setting.alwaysSucceed.Holds s w :=
    (orElse_iff flag_iff Value.flag.inj).trans (Setting.holds_iff .alwaysSucceed s w)
  have hs := slots_eq (by decide : Group.output.keys.Nodup) v
  change (slots Group.output.keys v >>= _) = _ ↔ _
  rw [Gives, Group.forall_output, hs]
  cases isRecord v with
  | false => simp
  | true =>
    refine Iff.trans ?_ (and_iff_right rfl).symm
    refine Iff.trans ?_ (and_congr (hlogging _) (and_congr (hsummary _) (hsucceed _)))
    exact bind_three_iff _ _ _ Output.mk.inj

theorem Compiler.ofToml_iff : Compiler.ofToml v = some s.compiler ↔ Gives .compiler s v := by
  have hcommand (w : Option Toml) : orElse texts commandDefault w = some s.compiler.command ↔
      Setting.command.Holds s w :=
    (orElse_iff texts_iff Value.texts.inj).trans (Setting.holds_iff .command s w)
  have hformat (w : Option Toml) : orElse (oneOf InputFormat.ofWord?) formatDefault w =
      some s.compiler.format ↔ Setting.format.Holds s w :=
    (orElse_iff format_iff Value.format.inj).trans (Setting.holds_iff .format s w)
  have hmessages (w : Option Toml) : orElse (fun v => (text v).map some) messagesDefault w =
      some s.compiler.messages ↔ Setting.messages.Holds s w :=
    (orElse_iff path_iff Value.path.inj).trans (Setting.holds_iff .messages s w)
  have hs := slots_eq (by decide : Group.compiler.keys.Nodup) v
  change (slots Group.compiler.keys v >>= _) = _ ↔ _
  rw [Gives, Group.forall_compiler, hs]
  cases isRecord v with
  | false => simp
  | true =>
    refine Iff.trans ?_ (and_iff_right rfl).symm
    refine Iff.trans ?_ (and_congr (hcommand _) (and_congr (hformat _) (hmessages _)))
    exact bind_three_iff _ _ _ Compiler.mk.inj

theorem Sources.ofToml_iff : Sources.ofToml v = some s.sources ↔ Gives .sources s v := by
  have hdiscover (w : Option Toml) : orElse flag discoverDefault w = some s.sources.discover ↔
      Setting.discover.Holds s w :=
    (orElse_iff flag_iff Value.flag.inj).trans (Setting.holds_iff .discover s w)
  have hpatterns (w : Option Toml) : orElse texts patternsDefault w = some s.sources.patterns ↔
      Setting.patterns.Holds s w :=
    (orElse_iff texts_iff Value.texts.inj).trans (Setting.holds_iff .patterns s w)
  have hs := slots_eq (by decide : Group.sources.keys.Nodup) v
  change (slots Group.sources.keys v >>= _) = _ ↔ _
  rw [Gives, Group.forall_sources, hs]
  cases isRecord v with
  | false => simp
  | true =>
    refine Iff.trans ?_ (and_iff_right rfl).symm
    refine Iff.trans ?_ (and_congr (hdiscover _) (hpatterns _))
    exact bind_two_iff _ _ Sources.mk.inj

theorem Setting.group_eq_none_iff {x : Setting} : x.group = none ↔ x = .stem := by
  cases x <;> simp [group]

theorem Setting.given_of_group {x : Setting} {g : Group} (h : x.group = some g) (ms : Members) :
    x.given ms = (member? ms g.name).bind (field? g.keys x.key) := by
  rw [given, h]

theorem orElse_group_iff {α : Type} {d : Decoder α} {a a₀ : α} {g : Group} (ms : Members)
    (hd : ∀ {v}, d v = some a ↔ Gives g s v)
    (ha : a₀ = a ↔ ∀ x : Setting, x.group = some g → x.value s = x.value .default) :
    orElse d a₀ (member? ms g.name) = some a ↔
      (∀ v, member? ms g.name = some v → isRecord v = true) ∧
        ∀ x : Setting, x.group = some g → x.Holds s (x.given ms) := by
  have hgiven (x : Setting) (hx : x.group = some g) := Setting.given_of_group hx ms
  cases hm : member? ms g.name with
  | none =>
    rw [hm] at hgiven
    constructor
    · intro h
      refine ⟨fun v hv => (Option.some_ne_none v hv.symm).elim, fun x hx => ?_⟩
      rw [hgiven x hx]
      exact ha.1 (Option.some.inj h) x hx
    · rintro ⟨-, h⟩
      refine congrArg some (ha.2 fun x hx => ?_)
      have hx' := h x hx
      rwa [hgiven x hx] at hx'
  | some v =>
    rw [hm] at hgiven
    refine hd.trans (and_congr ?_ (forall₂_congr fun x hx => ?_))
    · simp
    · rw [hgiven x hx]
      rfl

theorem Output.default_eq_iff : Output.default = s.output ↔
    ∀ x : Setting, x.group = some .output → x.value s = x.value .default := by
  rcases s with ⟨_, ⟨_, _, _⟩, _, _⟩
  rw [Group.forall_output]
  simp [Setting.value, Settings.default, Output.default, eq_comm]

theorem Compiler.default_eq_iff : Compiler.default = s.compiler ↔
    ∀ x : Setting, x.group = some .compiler → x.value s = x.value .default := by
  rcases s with ⟨_, _, ⟨_, _, _⟩, _⟩
  rw [Group.forall_compiler]
  simp [Setting.value, Settings.default, Compiler.default, eq_comm]

theorem Sources.default_eq_iff : Sources.default = s.sources ↔
    ∀ x : Setting, x.group = some .sources → x.value s = x.value .default := by
  rcases s with ⟨_, _, _, ⟨_, _⟩⟩
  rw [Group.forall_sources]
  simp [Setting.value, Settings.default, Sources.default, eq_comm]

/-- A document gives settings when its groups are records and every setting has the value given or,
where none is given, its default. -/
theorem ofToml_iff {o : Origin} {ms : Members} : ofToml (.table o ms) = some s ↔
    (∀ (g : Group) v, member? ms g.name = some v → isRecord v = true) ∧
      ∀ x : Setting, x.Holds s (x.given ms) := by
  have hstem : orElse text defaultStem (member? ms Setting.stem.key) = some s.stem ↔
      Setting.stem.Holds s (Setting.stem.given ms) :=
    (orElse_iff text_iff Value.text.inj).trans (Setting.holds_iff .stem s _)
  have houtput := orElse_group_iff ms (Output.ofToml_iff (s := s)) Output.default_eq_iff
  have hcompiler := orElse_group_iff ms (Compiler.ofToml_iff (s := s)) Compiler.default_eq_iff
  have hsources := orElse_group_iff ms (Sources.ofToml_iff (s := s)) Sources.default_eq_iff
  constructor
  · intro h
    obtain ⟨_, hst, h⟩ := Option.bind_eq_some_iff.1 h
    obtain ⟨_, ho, h⟩ := Option.bind_eq_some_iff.1 h
    obtain ⟨_, hc, h⟩ := Option.bind_eq_some_iff.1 h
    obtain ⟨_, hs, h⟩ := Option.bind_eq_some_iff.1 h
    cases h
    obtain ⟨horecord, ho⟩ := houtput.1 ho
    obtain ⟨hcrecord, hc⟩ := hcompiler.1 hc
    obtain ⟨hsrecord, hs⟩ := hsources.1 hs
    refine ⟨fun g => ?_, fun x => ?_⟩
    · cases g <;> assumption
    · match hx : x.group with
      | none =>
        cases Setting.group_eq_none_iff.1 hx
        exact hstem.1 hst
      | some .output => exact ho x hx
      | some .compiler => exact hc x hx
      | some .sources => exact hs x hx
  · rintro ⟨hrecord, hall⟩
    exact Option.bind_eq_some_iff.2 ⟨_, hstem.2 (hall .stem),
      Option.bind_eq_some_iff.2 ⟨_, houtput.2 ⟨hrecord .output, fun x _ => hall x⟩,
        Option.bind_eq_some_iff.2 ⟨_, hcompiler.2 ⟨hrecord .compiler, fun x _ => hall x⟩,
          Option.bind_eq_some_iff.2 ⟨_, hsources.2 ⟨hrecord .sources, fun x _ => hall x⟩, rfl⟩⟩⟩⟩

end Records

section Completion
variable {x y : Setting} {g : Group} {s s' : Settings} {ms ms' : Members} {w : Option Toml}
  {v : Toml} {t t' : Text}

theorem Told.eq {α : Type} {k : α → Value} {d : Decoder α} {a b : α} {z : Value}
    (hd : ∀ {v a}, d v = some a ↔ Written (k a) v) (ha : Told (k a) z w) (hb : Told (k b) z w) :
    k a = k b := by
  cases w with
  | none => exact Eq.trans ha hb.symm
  | some v =>
    have hab : a = b := Option.some.inj ((hd.2 ha).symm.trans (hd.2 hb))
    exact congrArg k hab

theorem Setting.Holds.value_eq (h : x.Holds s w) (h' : x.Holds s' w) : x.value s = x.value s' := by
  cases x with
  | stem => exact Told.eq (k := .text) text_iff h h'
  | logging | alwaysSucceed | discover => exact Told.eq (k := .flag) flag_iff h h'
  | command | patterns => exact Told.eq (k := .texts) texts_iff h h'
  | summary => exact Told.eq (k := .mode) mode_iff h h'
  | format => exact Told.eq (k := .format) format_iff h h'
  | messages => exact Told.eq (k := .path) path_iff h h'

/-- A setting is given alike, or it was not given and now is as its default. -/
def Setting.FilledIn (x : Setting) (ms ms' : Members) : Prop :=
  x.given ms' = x.given ms ∨
    x.given ms = none ∧ ∃ v, x.given ms' = some v ∧ Written (x.value .default) v

/-- A document with more settings in it, each of them with its default. What is new may be a group
of no settings. -/
structure Completes (ms ms' : Members) : Prop where
  records : ∀ (g : Group) v, member? ms' g.name = some v → isRecord v = true
  settings : ∀ x : Setting, x.FilledIn ms ms'

theorem Completes.holds (h : Completes ms ms') (hx : x.Holds s (x.given ms)) :
    x.Holds s (x.given ms') := by
  rcases h.settings x with hsame | ⟨hnone, v, hv, hw⟩
  · rwa [hsame]
  · rw [hnone] at hx
    rw [hv]
    have hdefault : x.value s = x.value .default := hx
    rwa [← hdefault] at hw

/-- A record of a group that says nothing but defaults; it may say nothing. -/
structure SaysDefaults (g : Group) (v : Toml) : Prop where
  record : isRecord v = true
  fields : ∀ x : Setting, x.group = some g → ∀ w, field? g.keys x.key v = some w →
    Written (x.value .default) w

theorem SaysDefaults.vacant (h : isVacant v = true) (g : Group) : SaysDefaults g v := by
  unfold isVacant at h
  split at h
  · exact ⟨rfl, fun _ _ _ hw => by cases hw⟩
  · exact ⟨rfl, fun _ _ _ hw => by cases hw⟩
  · cases h

theorem Group.name_injective : Function.Injective Group.name := by
  intro g g' h
  cases g <;> cases g' <;> first | rfl | exact absurd h (by decide)

theorem Setting.key_injective : Function.Injective Setting.key := by
  intro x y h
  cases x <;> cases y <;> first | rfl | exact absurd h (by decide)

theorem Group.name_ne_key (g : Group) : g.name ≠ Setting.stem.key := by
  cases g <;> decide

theorem given_of_member?_eq (hstem : member? ms' Setting.stem.key = member? ms Setting.stem.key)
    (hgroup : ∀ g, x.group = some g → member? ms' g.name = member? ms g.name) :
    x.given ms' = x.given ms := by
  cases hx : x.group with
  | none =>
    cases Setting.group_eq_none_iff.1 hx
    exact hstem
  | some g => rw [Setting.given_of_group hx, Setting.given_of_group hx, hgroup g hx]

theorem completes_of_group (hrecords : ∀ (g : Group) v, member? ms g.name = some v →
      isRecord v = true) (hv : isRecord v = true)
    (hall : ∀ i, member? ms' i = if i = g.name then some v else member? ms i)
    (hgroup : ∀ x : Setting, x.group = some g → x.FilledIn ms ms') : Completes ms ms' where
  records g' v' hm := by
    rw [hall] at hm
    split at hm
    · cases hm
      exact hv
    · exact hrecords g' v' hm
  settings x := by
    by_cases hx : x.group = some g
    · exact hgroup x hx
    · refine .inl (given_of_member?_eq ?_ fun g' hg' => ?_)
      · rw [hall, if_neg (Group.name_ne_key g).symm]
      · have hne : g'.name ≠ g.name := fun e => hx (Group.name_injective e ▸ hg')
        rw [hall, if_neg hne]

/-- A group that a document leaves out may be there and say nothing but defaults. -/
theorem completes_group (hrecords : ∀ (g : Group) v, member? ms g.name = some v → isRecord v = true)
    (hv : SaysDefaults g v) (h : Grown g.name v [] ms ms') : Completes ms ms' := by
  obtain ⟨hnone, hall⟩ := h
  refine completes_of_group hrecords hv.record hall fun x hx => ?_
  have hgiven : x.given ms = none := by rw [Setting.given_of_group hx, hnone]; rfl
  have hfield : x.given ms' = field? g.keys x.key v := by
    rw [Setting.given_of_group hx, hall, if_pos rfl]
    rfl
  cases hw : field? g.keys x.key v with
  | none => exact .inl (by rw [hgiven, hfield, hw])
  | some w => exact .inr ⟨hgiven, w, by rw [hfield, hw], hv.fields x hx w hw⟩

theorem Setting.given_of_table {o : Origin} {m : Members} (hx : x.group = some g)
    (hm : member? ms g.name = some (.table o m)) : x.given ms = member? m x.key := by
  rw [given_of_group hx, hm]
  rfl

/-- A setting that a document leaves out may be given its default in the table where it belongs. -/
theorem completes_setting
    (hrecords : ∀ (g : Group) v, member? ms g.name = some v → isRecord v = true)
    (hv : Written (x.value .default) v) (h : Grown x.key v x.path ms ms') : Completes ms ms' := by
  cases hx : x.group with
  | none =>
    cases Setting.group_eq_none_iff.1 hx
    obtain ⟨hnone, hall⟩ := h
    have hgroup (g : Group) : member? ms' g.name = member? ms g.name := by
      rw [hall, if_neg (Group.name_ne_key g)]
    refine ⟨fun g v hg => hrecords g v (hgroup g ▸ hg), fun y => ?_⟩
    cases hy : y.group with
    | none =>
      cases Setting.group_eq_none_iff.1 hy
      exact .inr ⟨hnone, v, (hall _).trans (if_pos rfl), hv⟩
    | some g =>
      left
      rw [Setting.given_of_group hy, Setting.given_of_group hy, hgroup]
  | some g =>
    have hpath : x.path = [g.name] := by rw [Setting.path, hx]; rfl
    rw [hpath] at h
    obtain ⟨o, m, m', hm, ⟨hnone, hinner⟩, hall⟩ := h
    have hm' : member? ms' g.name = some (.table o m') := by rw [hall, if_pos rfl]
    refine completes_of_group hrecords rfl hall fun y hy => ?_
    rw [Setting.FilledIn, Setting.given_of_table hy hm, Setting.given_of_table hy hm', hinner]
    by_cases hxy : y = x
    · subst hxy
      exact .inr ⟨hnone, v, if_pos rfl, hv⟩
    · exact .inl (if_neg fun e => hxy (Setting.key_injective e))

/-- The setting that an array gives first is no table in any group, so several tables under the
name of a group are no record of it. -/
theorem not_lists (h : ofToml (.table .header ms) = some s) (g : Group) : ¬ Lists g.name ms := by
  rintro ⟨ts, hts, hm⟩
  obtain ⟨t, ts, rfl⟩ := List.exists_cons_of_ne_nil hts
  have hfirst (x : Setting) (hx : x.group = some g) (hkey : g.keys.idxOf x.key = 0) :
      Written (x.value s) (.table .header t) := by
    have hall := (ofToml_iff.1 h).2 x
    have hgiven : x.given ms = some (.table .header t) := by
      simp [Setting.given_of_group hx, hm, field?, hkey]
    rwa [hgiven] at hall
  cases g with
  | output => cases hfirst .logging rfl rfl
  | compiler => cases hfirst .command rfl rfl
  | sources => cases hfirst .discover rfl rfl

theorem not_has (h : x.given ms = none) : ¬ Has x.key x.path ms := by
  intro hk
  cases hx : x.group with
  | none =>
    cases Setting.group_eq_none_iff.1 hx
    have hnone : member? ms Setting.stem.key = none := h
    simp [Setting.path, Setting.group, Has, hnone] at hk
  | some g =>
    rw [Setting.path, hx] at hk
    obtain ⟨o, m, hm, hk⟩ := hk
    rw [Setting.given_of_table hx hm] at h
    simp [Has, h] at hk

theorem read_iff : read t = some s ↔
    ∃ ms, Toml.read t = some (.table .header ms) ∧ ofToml (.table .header ms) = some s := by
  rw [read, Option.bind_eq_some_iff]
  constructor
  · rintro ⟨d, hd, hs⟩
    obtain ⟨p, hp, rfl⟩ := read_eq_some_iff.1 hd
    exact ⟨_, hd, hs⟩
  · rintro ⟨ms, hms, hs⟩
    exact ⟨_, hms, hs⟩

/-- A text in which a group or a setting that the document leaves out is written out. A group says
nothing but defaults, or nothing at all, and is headed behind the document or stands on a line of
the document's own table; a setting has its default and stands on a line of the table that it
belongs to. -/
inductive WrittenOut (ms : Members) (t : Text) : Text → Prop
  | table {g : Group} {e : Headed} (hnone : member? ms g.name = none) (hname : e.name = g.name)
      (hv : SaysDefaults g e.member.2) : WrittenOut ms t (t ++ e.text)
  | group {g : Group} {e : Entry} {u t' : Text} {p : Progress} (hnone : member? ms g.name = none)
      (hkey : e.key = g.name) (hv : SaysDefaults g e.value) (hu : progress u = some p)
      (hp : p.current = []) (hi : Inserted e.text u t t') : WrittenOut ms t t'
  | setting {x : Setting} {e : Entry} {u t' : Text} {p : Progress} (hnone : x.given ms = none)
      (hkey : e.key = x.key) (hv : Written (x.value .default) e.value) (hu : progress u = some p)
      (hp : p.current = x.path) (hi : Inserted e.text u t t') : WrittenOut ms t t'

theorem WrittenOut.completes (hout : WrittenOut ms t t')
    (ht : Toml.read t = some (.table .header ms)) (hs : ofToml (.table .header ms) = some s) :
    ∃ ms', Toml.read t' = some (.table .header ms') ∧ Completes ms ms' := by
  have hrecords := (ofToml_iff.1 hs).1
  cases hout with
  | @table g e hnone hname hv =>
    rw [← hname] at hnone
    have hgrown : Grown e.name e.member.2 [] ms (ms ++ [e.member]) := grown_concat hnone _
    rw [hname] at hgrown
    exact ⟨_, read_headed e ht hnone, completes_group hrecords hv hgrown⟩
  | @group g e u _ p hnone hkey hv hu hp hi =>
    have hno : ¬ Has e.key p.current ms := by simp [hkey, hp, Has, hnone]
    obtain ⟨ms', hms', hgrown⟩ := read_inserted hi hu ht (.inl hp) hno
    rw [hp, hkey] at hgrown
    exact ⟨ms', hms', completes_group hrecords hv hgrown⟩
  | @setting x e u _ p hnone hkey hv hu hp hi =>
    have hno : ¬ Has e.key p.current ms := by
      rw [hkey, hp]
      exact not_has hnone
    have hpath : p.current = [] ∨ ∃ j, p.current = [j] ∧ ¬ Lists j ms := by
      rw [hp, Setting.path]
      cases x.group with
      | none => exact .inl rfl
      | some g => exact .inr ⟨_, rfl, not_lists hs g⟩
    obtain ⟨ms', hms', hgrown⟩ := read_inserted hi hu ht hpath hno
    rw [hp, hkey] at hgrown
    exact ⟨ms', hms', completes_setting hrecords hv hgrown⟩

end Completion

/-- A setting that a document gives has the value given, whatever else is given, and one that it
does not give has its default. So a document may be completed by defaults, and texts in which
defaults are written out are read as the same settings. -/
theorem read_defaults {t : Text} {s : Settings} (h : read t = some s) :
    ∃ ms, Toml.read t = some (.table .header ms) ∧
      (∀ x : Setting, x.Holds s (x.given ms)) ∧
      (∀ {t' ms' s'}, Toml.read t' = some (.table .header ms') → read t' = some s' →
        ∀ x : Setting, x.given ms' = x.given ms → x.value s' = x.value s) ∧
      (∀ {t' ms'}, Toml.read t' = some (.table .header ms') → Completes ms ms' →
        read t' = some s) ∧
      ∀ {t'}, WrittenOut ms t t' → read t' = some s := by
  obtain ⟨ms, ht, hs⟩ := read_iff.1 h
  have hcompletes {t' : Text} {ms' : Members} (ht' : Toml.read t' = some (.table .header ms'))
      (hc : Completes ms ms') : read t' = some s :=
    read_iff.2 ⟨ms', ht', ofToml_iff.2
      ⟨hc.records, fun x => hc.holds ((ofToml_iff.1 hs).2 x)⟩⟩
  refine ⟨ms, ht, (ofToml_iff.1 hs).2, ?_, hcompletes, ?_⟩
  · intro t' ms' s' ht' h' x hx
    obtain ⟨_, ht'', hs'⟩ := read_iff.1 h'
    cases ht'.symm.trans ht''
    have hx' := (ofToml_iff.1 hs').2 x
    rw [hx] at hx'
    exact hx'.value_eq ((ofToml_iff.1 hs).2 x)
  · intro t' hout
    obtain ⟨ms', ht', hc⟩ := hout.completes ht hs
    exact hcompletes ht' hc

/-- An empty table behind the document, another one on its first line, and a line put under the
header of a group. -/
theorem read_defaults_partial :
    let s : Settings := { default with output.summary := .detailed }
    read "[output]\nsummary = 'detailed'\n".toList = some s ∧
      read "[output]\nsummary = 'detailed'\n\n[sources]\n".toList = some s ∧
      read "compiler = \x7b\x7d\n[output]\nsummary = 'detailed'\n".toList = some s ∧
      read "[output]\nexit_code_zero = false\nsummary = 'detailed'\n".toList = some s := by
  intro s
  let t : Text := "[output]\nsummary = 'detailed'\n".toList
  have h : read t = some s := by decide +kernel
  obtain ⟨ms, hms, -, -, -, hout⟩ := read_defaults h
  have hsources : (Toml.read t).bind (field? [] Group.sources.name) = none := by decide +kernel
  have hcompiler : (Toml.read t).bind (field? [] Group.compiler.name) = none := by decide +kernel
  have hsucceed : ((Toml.read t).bind (field? [] Group.output.name)).bind
      (field? Group.output.keys Setting.alwaysSucceed.key) = none := by decide +kernel
  have hcurrent : (progress "[output]".toList).map Progress.current =
      some Setting.alwaysSucceed.path := by decide +kernel
  rw [hms] at hsources hcompiler hsucceed
  obtain ⟨p, hu, hp⟩ := Option.map_eq_some_iff.1 hcurrent
  refine ⟨h, ?_, ?_, ?_⟩
  · exact hout (.table (g := .sources) (e := ⟨"sources".toList, [], by decide, .nil⟩)
      hsources rfl (.vacant rfl _))
  · exact hout (.group (g := .compiler) (e := .ofBraces "compiler".toList (by decide))
      hcompiler rfl (.vacant rfl _) (u := []) rfl rfl (.top rfl))
  · exact hout (.setting (x := .alwaysSucceed)
      (e := .ofFlag "exit_code_zero".toList (by decide) false) hsucceed rfl (.flag false) hu hp
      (.below .newline))

end Triage.Settings
