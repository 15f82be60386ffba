import Triage.Command.Check
import Triage.Proofs.World.Attempt

set_option autoImplicit false

/-!
The course of a check. It reads its input and its message table, lists the files of the project,
asks for rules and draws its conclusions (`findings_eq`). What can end it early is told by `Fails`,
and what it comes to otherwise by `Finds`; a listing that fails is neither, it has no files
(`Lists.missed`).
-/

namespace Triage.Check
open CommandLine

def diagnostics (args : CheckArgs) (settings : Settings) (dir : Text) :
    Attempt (List Diagnostic) :=
  (input args settings).read (args.inputFormat.getD settings.compiler.format) dir

def table (args : CheckArgs) (settings : Settings) (dir : Text) :
    Attempt (Option MessageTable) :=
  match args.messagesIn settings with
  | some path => some <$> loadTable (Text.under dir path)
  | none => pure none

def listing (settings : Settings) (dir : Text) : Attempt (SortedSet Text) :=
  AttributeStore.list ⟨dir⟩ settings.sources.patterns

def listed (args : CheckArgs) (settings : Settings) (dir : Text) : Action (SortedSet Text) :=
  if args.discovers settings then discover settings dir else pure .empty

def known (ds : List Diagnostic) (files : SortedSet Text) : SortedSet Text :=
  (SortedSet.ofList (ds.filterMap (·.file))).addAll files.keys

def conclude (ds : List Diagnostic) (messages : Option MessageTable) (files : SortedSet Text)
    (rules : ProjectRules) : Findings :=
  ⟨(sift rules ds).1, (sift rules ds).2, known ds files, catalog ds messages⟩

variable {args : CheckArgs} {settings : Settings} {dir : Text} {source : RuleSource}
  {w w' : World} {e : Failure}

theorem findings_eq (args : CheckArgs) (settings : Settings) (dir : Text) (source : RuleSource) :
    findings args settings dir source = (do
      let ds ← diagnostics args settings dir
      let messages ← table args settings dir
      let files ← Attempt.ofAction (listed args settings dir)
      let rules ← source.query (known ds files) (args.stemIn settings)
      return conclude ds messages files rules) := by
  unfold findings diagnostics table listed
  dsimp only
  refine bind_congr fun ds => ?_
  cases args.messagesIn settings <;> cases args.discovers settings <;> rfl

/-- What a check knows before it looks for files. -/
def Reads (args : CheckArgs) (settings : Settings) (dir : Text) (w : World)
    (ds : List Diagnostic) (messages : Option MessageTable) (w' : World) : Prop :=
  ∃ w₁, (diagnostics args settings dir).Reaches w ds w₁ ∧
    (table args settings dir).Reaches w₁ messages w'

inductive Lists (args : CheckArgs) (settings : Settings) (dir : Text) (w : World) :
    SortedSet Text → World → Prop where
  | off (h : args.discovers settings = false) : Lists args settings dir w .empty w
  | found {files : SortedSet Text} {w' : World} (h : args.discovers settings = true)
      (hl : (listing settings dir).Reaches w files w') :
      Lists args settings dir w files w'
  | missed {e : Failure} (h : args.discovers settings = true)
      (hl : (listing settings dir).Stops w e) :
      Lists args settings dir w .empty ((listing settings dir).run w).world

inductive Fails (args : CheckArgs) (settings : Settings) (dir : Text) (source : RuleSource)
    (w : World) (e : Failure) : Prop where
  | input (h : (diagnostics args settings dir).Stops w e)
  | table {ds : List Diagnostic} {w₁ : World}
      (hd : (diagnostics args settings dir).Reaches w ds w₁)
      (h : (table args settings dir).Stops w₁ e)
  | rules {ds : List Diagnostic} {messages : Option MessageTable} {files : SortedSet Text}
      {w₂ w₃ : World} (hr : Reads args settings dir w ds messages w₂)
      (hl : Lists args settings dir w₂ files w₃)
      (h : (source.query (known ds files) (args.stemIn settings)).Stops w₃ e)

inductive Finds (args : CheckArgs) (settings : Settings) (dir : Text) (source : RuleSource)
    (w : World) : Findings → World → Prop where
  | intro {ds : List Diagnostic} {messages : Option MessageTable} {files : SortedSet Text}
      {rules : ProjectRules} {w₂ w₃ w' : World} (hr : Reads args settings dir w ds messages w₂)
      (hl : Lists args settings dir w₂ files w₃)
      (h : (source.query (known ds files) (args.stemIn settings)).Reaches w₃ rules w') :
      Finds args settings dir source w (conclude ds messages files rules) w'

theorem discover_found {files : SortedSet Text} (h : (listing settings dir).Reaches w files w') :
    ((discover settings dir).run w).value = files ∧ ((discover settings dir).run w).world = w' := by
  obtain ⟨hv, rfl⟩ := h
  change (Action.run (ExceptT.run (AttributeStore.list ⟨dir⟩ _)) w).value = _ at hv
  simp only [discover, Action.run_bind, hv]
  exact ⟨rfl, rfl⟩

theorem discover_missed (h : (listing settings dir).Stops w e) :
    ((discover settings dir).run w).value = .empty ∧
      ((discover settings dir).run w).world = ((listing settings dir).run w).world := by
  change (Action.run (ExceptT.run (AttributeStore.list ⟨dir⟩ _)) w).value = _ at h
  simp only [discover, Action.run_bind, h]
  exact ⟨rfl, rfl⟩

theorem lists_iff {files : SortedSet Text} : Lists args settings dir w files w' ↔
    (Attempt.ofAction (listed args settings dir)).Reaches w files w' := by
  rw [Attempt.reaches_ofAction, listed]
  constructor
  · intro h
    cases h with
    | off h => simp [h]
    | found h hl => simpa [h] using discover_found hl
    | missed h hl => simpa [h] using discover_missed hl
  · rintro ⟨rfl, rfl⟩
    cases h : args.discovers settings with
    | false => exact .off h
    | true =>
      rw [if_pos rfl]
      rcases (listing settings dir).reaches_or_stops w with ⟨files, w', hl⟩ | ⟨e, hl⟩
      · obtain ⟨hv, hw⟩ := discover_found hl
        rw [hv, hw]
        exact .found h hl
      · obtain ⟨hv, hw⟩ := discover_missed hl
        rw [hv, hw]
        exact .missed h hl

theorem Lists.eq_empty {files : SortedSet Text} (h : Lists args settings dir w files w')
    (hs : (listing settings dir).Stops w e) : files = .empty := by
  cases h with
  | off h => rfl
  | found h hl => exact absurd hs hl.not_stops
  | missed h hl => rfl

theorem stops_iff :
    (findings args settings dir source).Stops w e ↔ Fails args settings dir source w e := by
  rw [findings_eq]
  simp only [Attempt.stops_bind, Attempt.not_stops_pure, and_false, exists_false, or_false]
  constructor
  · rintro (h | ⟨ds, w₁, hd, h | ⟨messages, w₂, ht, h | ⟨files, w₃, hl, h⟩⟩⟩)
    · exact .input h
    · exact .table hd h
    · exact absurd h Attempt.not_stops_ofAction
    · exact .rules ⟨w₁, hd, ht⟩ (lists_iff.2 hl) h
  · rintro (h | ⟨hd, h⟩ | ⟨⟨w₁, hd, ht⟩, hl, h⟩)
    · exact .inl h
    · exact .inr ⟨_, _, hd, .inl h⟩
    · exact .inr ⟨_, _, hd, .inr ⟨_, _, ht, .inr ⟨_, _, lists_iff.1 hl, h⟩⟩⟩

theorem reaches_iff {f : Findings} : (findings args settings dir source).Reaches w f w' ↔
    Finds args settings dir source w f w' := by
  rw [findings_eq]
  simp only [Attempt.reaches_bind, Attempt.reaches_pure]
  constructor
  · rintro ⟨ds, w₁, hd, messages, w₂, ht, files, w₃, hl, rules, _, hq, rfl, rfl⟩
    exact .intro ⟨w₁, hd, ht⟩ (lists_iff.2 hl) hq
  · rintro ⟨⟨w₁, hd, ht⟩, hl, hq⟩
    exact ⟨_, _, hd, _, _, ht, _, _, lists_iff.1 hl, _, _, hq, rfl, rfl⟩

theorem Fails.run (h : Fails args settings dir source w e) (colour : Bool) :
    (run args settings dir colour source).Stops w e :=
  (stops_iff.2 h).bind _

theorem Finds.run {f : Findings} (h : Finds args settings dir source w f w') (colour : Bool) :
    (run args settings dir colour source).Reaches w (print args settings dir colour f) w' :=
  Attempt.reaches_bind.2 ⟨f, w', reaches_iff.2 h, Attempt.reaches_pure.2 ⟨rfl, rfl⟩⟩

theorem fails_or_finds (args : CheckArgs) (settings : Settings) (dir : Text) (source : RuleSource)
    (w : World) : (∃ e, Fails args settings dir source w e) ∨
      ∃ f w', Finds args settings dir source w f w' := by
  rcases (findings args settings dir source).reaches_or_stops w with ⟨f, w', h⟩ | ⟨e, h⟩
  · exact .inr ⟨f, w', reaches_iff.1 h⟩
  · exact .inl ⟨e, stops_iff.1 h⟩

end Triage.Check
