import Triage.Program
import Triage.Proofs.AttributeStore.Query
import Triage.Proofs.Check.Course
import Triage.Proofs.CommandLine.Flags

set_option autoImplicit false

namespace Triage.Program
open CommandLine

/-- The steps in front of a command: the working directory, then its settings. -/
def Opens (i : Invocation) (w : World) (dir : Text) (s : Settings) (w' : World) : Prop :=
  ∃ w₁, (workingDir i).Reaches w dir w₁ ∧ (settings i dir).Reaches w₁ s w'

inductive Fails (i : Invocation) (args : CheckArgs) (w : World) (e : Failure) : Prop where
  | directory (h : (workingDir i).Stops w e)
  | settings {dir : Text} {w₁ : World} (hd : (workingDir i).Reaches w dir w₁)
      (h : (settings i dir).Stops w₁ e)
  | check {dir : Text} {s : Settings} {w₁ : World} (ho : Opens i w dir s w₁)
      (h : Check.Fails args s dir (.store ⟨dir⟩) w₁ e)

inductive Finds (i : Invocation) (args : CheckArgs) (w : World) (dir : Text) (s : Settings)
    (f : Check.Findings) : Prop where
  | intro {w₁ w' : World} (ho : Opens i w dir s w₁)
      (h : Check.Finds args s dir (.store ⟨dir⟩) w₁ f w')

variable {argv : List Text} {i : Invocation} {args : CheckArgs} {w : World}

theorem perform_check (hc : i.command = .check args) (colour : Bool) :
    perform i colour = (do
      let dir ← workingDir i
      let s ← settings i dir
      Check.run args s dir colour (.store ⟨dir⟩)) := by
  unfold perform
  simp only [hc]

theorem Fails.perform {e : Failure} (hc : i.command = .check args) (h : Fails i args w e)
    (colour : Bool) : (perform i colour).Stops w e := by
  rw [perform_check hc]
  cases h with
  | directory h => exact h.bind _
  | settings hd h => exact Attempt.stops_bind.2 (.inr ⟨_, _, hd, h.bind _⟩)
  | check ho h =>
    obtain ⟨w₁, hd, hs⟩ := ho
    refine Attempt.stops_bind.2 (.inr ⟨_, _, hd, ?_⟩)
    exact Attempt.stops_bind.2 (.inr ⟨_, _, hs, h.run colour⟩)

theorem Finds.perform {dir : Text} {s : Settings} {f : Check.Findings}
    (hc : i.command = .check args) (h : Finds i args w dir s f) (colour : Bool) :
    ∃ w', (perform i colour).Reaches w (Check.print args s dir colour f) w' := by
  obtain @⟨_, w', ⟨w₁, hd, hs⟩, h⟩ := h
  rw [perform_check hc]
  refine ⟨w', Attempt.reaches_bind.2 ⟨_, _, hd, ?_⟩⟩
  exact Attempt.reaches_bind.2 ⟨_, _, hs, h.run colour⟩

theorem fails_or_finds (i : Invocation) (args : CheckArgs) (w : World) :
    (∃ e, Fails i args w e) ∨ ∃ dir s f, Finds i args w dir s f := by
  rcases (workingDir i).reaches_or_stops w with ⟨dir, w₁, hd⟩ | ⟨e, h⟩
  · rcases (settings i dir).reaches_or_stops w₁ with ⟨s, w₂, hs⟩ | ⟨e, h⟩
    · have ho : Opens i w dir s w₂ := ⟨w₁, hd, hs⟩
      rcases Check.fails_or_finds args s dir (.store ⟨dir⟩) w₂ with ⟨e, h⟩ | ⟨f, w', h⟩
      · exact .inl ⟨e, .check ho h⟩
      · exact .inr ⟨dir, s, f, .intro ho h⟩
    · exact .inl ⟨e, .settings hd h⟩
  · exact .inl ⟨e, .directory h⟩

theorem run_value (i : Invocation) (colour : Bool) (w : World) :
    ((run i colour).run w).value = report i ((perform i colour).run w).value := by
  rw [run, Action.run_bind]
  rfl

theorem exit_print (h : Invocation.parse argv = .ok i) (hc : i.command = .check args)
    (s : Settings) (dir : Text) (colour : Bool) (f : Check.Findings) :
    (Check.print args s dir colour f).exit =
      if f.kept = [] ∨ "--exit-code0".toList ∈ argv.takeWhile (· ≠ "--".toList) ∨
        s.output.alwaysSucceed = true then 0 else 1 := by
  have hx : args.succeedsAlways s = true ↔
      "--exit-code0".toList ∈ argv.takeWhile (· ≠ "--".toList) ∨
        s.output.alwaysSucceed = true := by
    rw [CheckArgs.succeedsAlways, Bool.or_eq_true, alwaysSucceed_iff h hc]
  unfold Check.print
  simp only [← hx]
  split
  · rfl
  · split
    · rfl
    · split <;> rfl

/-- A check that ends early prints its error alone, and one that does not prints its findings. With
an error the exit code is 2 unless the flag is given, whatever the settings say; without it is 1
where diagnostics are left, unless the flag or the settings say 0. Where only the listing of the
project's files fails, the check goes on without it. -/
theorem run_check (h : Invocation.parse argv = .ok i) (hc : i.command = .check args)
    (colour : Bool) (w : World) :
    let forced := "--exit-code0".toList ∈ argv.takeWhile (· ≠ "--".toList)
    let printed := ((run i colour).run w).value
    ((∃ e, Fails i args w e) ∨ ∃ dir s f, Finds i args w dir s f) ∧
    (∀ e, Fails i args w e →
      printed = ⟨if forced then 0 else 2, [], "Error: ".toList ++ e.message ++ ['\n']⟩) ∧
    (∀ dir s f, Finds i args w dir s f → printed = Check.print args s dir colour f ∧
      printed.exit = if f.kept = [] ∨ forced ∨ s.output.alwaysSucceed = true then 0 else 1) ∧
    ∀ dir s w₁ ds messages w₂ e rules w₃, Opens i w dir s w₁ →
      Check.Reads args s dir w₁ ds messages w₂ → args.discovers s = true →
      (Check.listing s dir).Stops w₂ e →
      ((RuleSource.store ⟨dir⟩).query (Check.known ds .empty) (args.stemIn s)).Reaches
        ((Check.listing s dir).run w₂).world rules w₃ →
      printed = Check.print args s dir colour (Check.conclude ds messages .empty rules) := by
  intro forced printed
  have hfinds : ∀ dir s f, Finds i args w dir s f →
      printed = Check.print args s dir colour f := by
    intro dir s f hf
    obtain ⟨w', hv, -⟩ := hf.perform hc colour
    exact (run_value i colour w).trans (congrArg (report i) hv)
  refine ⟨fails_or_finds i args w, fun e he => ?_, fun dir s f hf => ?_, ?_⟩
  · have hv := (run_value i colour w).trans (congrArg (report i) (he.perform hc colour))
    have hx : i.forcesSuccess = true ↔ forced := by
      rw [Invocation.forcesSuccess, hc]
      exact alwaysSucceed_iff h hc
    refine hv.trans ?_
    simp only [report, hx]
  · have hp := hfinds dir s f hf
    exact ⟨hp, by rw [hp, exit_print h hc]⟩
  · intro dir s w₁ ds messages w₂ e rules w₃ ho hr hon hl hq
    exact hfinds dir s _ (.intro ho (.intro hr (.missed hon hl) hq))

/-- Input that is no text, under the flag; and an error that is left, where the project's files
cannot be listed. -/
theorem run_check_mixed :
    let w (stdin : Bytes) := { AttributeStore.serving "/r".toList (fun _ => .empty) with stdin }
    let broken := w [255]
    let whole := w (Utf8.encode "a.ts(1,2): error TS7: m.\n".toList)
    let args (forced : Bool) : CheckArgs :=
      ⟨none, none, none, false, forced, false, false, false, none, false, []⟩
    let i (forced : Bool) : Invocation := ⟨0, none, none, .check (args forced)⟩
    let e : Failure := .input (.unreadable "<stdin>".toList .notUtf8)
    Invocation.parse ["check".toList, "--exit-code0".toList] = .ok (i true) ∧
      ((run (i true) false).run broken).value =
        ⟨0, [], "Error: ".toList ++ e.message ++ ['\n']⟩ ∧
      Invocation.parse ["check".toList] = .ok (i false) ∧
      ((run (i false) false).run whole).value =
        ⟨1, "a.ts(1,2): error TS7: m.\n\nFound 1 error(s), 0 warning(s).\n".toList, []⟩ := by
  intro w broken whole args i e
  have hforced : Invocation.parse ["check".toList, "--exit-code0".toList] = .ok (i true) := by
    decide
  have hplain : Invocation.parse ["check".toList] = .ok (i false) := by decide
  refine ⟨hforced, ?_, hplain, ?_⟩
  · have hd : (workingDir (i true)).Reaches broken ['/'] broken := ⟨by decide, rfl⟩
    have hs : (settings (i true) ['/']).Reaches broken .default broken := ⟨by decide, rfl⟩
    have hi : (Check.diagnostics (args true) .default ['/']).Stops broken e := by
      unfold Attempt.Stops
      decide
    have h := (run_check hforced rfl false broken).2.1 e (.check ⟨_, hd, hs⟩ (.input hi))
    rw [if_pos (by decide)] at h
    exact h
  · let d : Diagnostic := ⟨some "/a.ts".toList, some 1, some 2, 7, .error, "m.".toList⟩
    have hd : (workingDir (i false)).Reaches whole ['/'] whole := ⟨by decide, rfl⟩
    have hs : (settings (i false) ['/']).Reaches whole .default whole := ⟨by decide, rfl⟩
    have hr : Check.Reads (args false) .default ['/'] whole [d] none whole :=
      ⟨whole, ⟨by decide, rfl⟩, rfl, rfl⟩
    have hl : (Check.listing .default ['/']).Stops whole
        (.store (.commandFailed (AttributeStore.commandText AttributeStore.listArgs)
          "'git' failed with exit code 128: ".toList)) := by
      unfold Attempt.Stops
      decide
    have hq : ((RuleSource.store ⟨['/']⟩).query (Check.known [d] .empty) "ts".toList).Reaches
        ((Check.listing .default ['/']).run whole).world .empty _ := ⟨by decide, rfl⟩
    exact ((run_check hplain rfl false whole).2.2.2 ['/'] .default whole [d] none whole _ .empty
      _ ⟨_, hd, hs⟩ hr rfl hl hq).trans (by decide)

end Triage.Program
