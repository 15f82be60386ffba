import Triage.Failure

set_option autoImplicit false

namespace Triage

/-- The outcome of a second action behind a first one with the given launches. -/
def Outcome.after {α : Type} (ls : List Launch) (o : Outcome α) : Outcome α :=
  { o with launches := ls ++ o.launches }

namespace Attempt
variable {α β ε : Type} {w w' : World} {ls : List Launch}

@[simp] theorem run_pure (a : α) (w : World) : (pure a : Attempt α).run w = ⟨.ok a, w, []⟩ := rfl

theorem run_bind_ok {t : Attempt α} {a : α} (h : t.run w = ⟨.ok a, w', ls⟩) (f : α → Attempt β) :
    (t >>= f).run w = ((f a).run w').after ls := by
  have hb := Action.run_bind (ExceptT.run t) (ExceptT.bindCont f) w
  change Action.run (ExceptT.run t) w = _ at h
  rw [h] at hb
  exact hb

theorem run_bind_error {t : Attempt α} {e : Failure} (h : t.run w = ⟨.error e, w', ls⟩)
    (f : α → Attempt β) : (t >>= f).run w = ⟨.error e, w', ls⟩ := by
  have hb := Action.run_bind (ExceptT.run t) (ExceptT.bindCont f) w
  change Action.run (ExceptT.run t) w = _ at h
  rw [h] at hb
  exact hb.trans (congrArg (Outcome.mk _ w') (List.append_nil ls))

theorem mapError_eq_ok {r : Except ε α} {f : ε → Failure} {a : α} :
    r.mapError f = .ok a ↔ r = .ok a := by
  cases r with
  | ok x =>
    change Except.ok x = _ ↔ _
    simp
  | error e => exact ⟨nofun, nofun⟩

theorem run_ofExcept (r : Except ε α) (f : ε → Failure) (w : World) :
    (ofExcept r f).run w = ⟨r.mapError f, w, []⟩ := by
  cases r <;> rfl

theorem run_orFail {a : Action (Except ε α)} {r : Except ε α} (h : a.run w = ⟨r, w', ls⟩)
    (f : ε → Failure) : (orFail a f).run w = ⟨r.mapError f, w', ls⟩ := by
  change (a >>= _).run w = _
  rw [Action.run_bind, h]
  cases r with
  | ok x => exact congrArg (Outcome.mk _ w') (List.append_nil ls)
  | error e => exact congrArg (Outcome.mk _ w') (List.append_nil ls)

section Course
variable {t : Attempt α} {f : α → Attempt β} {a a' : α} {b : β} {w₁ : World} {e : Failure}

/-- The attempt goes through, to a value and the world after it. -/
def Reaches (t : Attempt α) (w : World) (a : α) (w' : World) : Prop :=
  (t.run w).value = .ok a ∧ (t.run w).world = w'

def Stops (t : Attempt α) (w : World) (e : Failure) : Prop := (t.run w).value = .error e

theorem reaches_or_stops (t : Attempt α) (w : World) :
    (∃ a w', t.Reaches w a w') ∨ ∃ e, t.Stops w e := by
  cases h : (t.run w).value with
  | ok a => exact .inl ⟨a, _, h, rfl⟩
  | error e => exact .inr ⟨e, h⟩

theorem Reaches.not_stops (h : t.Reaches w a w') : ¬ t.Stops w e :=
  fun h' => nomatch h.1.symm.trans h'

theorem Reaches.bind (h : t.Reaches w a w') (f : α → Attempt β) :
    ((t >>= f).run w).value = ((f a).run w').value ∧
      ((t >>= f).run w).world = ((f a).run w').world := by
  obtain ⟨ha, rfl⟩ := h
  have hr : t.run w = ⟨.ok a, (t.run w).world, (t.run w).launches⟩ := by rw [← ha]
  rw [run_bind_ok hr f]
  exact ⟨rfl, rfl⟩

theorem Stops.bind (h : t.Stops w e) (f : α → Attempt β) : (t >>= f).Stops w e := by
  have hr : t.run w = ⟨.error e, (t.run w).world, (t.run w).launches⟩ := by rw [← h]
  exact congrArg Outcome.value (run_bind_error hr f)

theorem reaches_bind :
    (t >>= f).Reaches w b w' ↔ ∃ a w₁, t.Reaches w a w₁ ∧ (f a).Reaches w₁ b w' := by
  constructor
  · intro h
    rcases t.reaches_or_stops w with ⟨a, w₁, ht⟩ | ⟨e, he⟩
    · obtain ⟨hv, hw⟩ := ht.bind f
      exact ⟨a, w₁, ht, hv.symm.trans h.1, hw.symm.trans h.2⟩
    · exact absurd (he.bind f) h.not_stops
  · rintro ⟨a, w₁, ht, hf⟩
    obtain ⟨hv, hw⟩ := ht.bind f
    exact ⟨hv.trans hf.1, hw.trans hf.2⟩

/-- Two attempts in a row end early in the first or, with its value and in its world, in the second.
-/
theorem stops_bind :
    (t >>= f).Stops w e ↔ t.Stops w e ∨ ∃ a w₁, t.Reaches w a w₁ ∧ (f a).Stops w₁ e := by
  constructor
  · intro h
    rcases t.reaches_or_stops w with ⟨a, w₁, ht⟩ | ⟨e', he⟩
    · exact .inr ⟨a, w₁, ht, (ht.bind f).1.symm.trans h⟩
    · have hb : ((t >>= f).run w).value = .error e' := he.bind f
      cases hb.symm.trans h
      exact .inl he
  · rintro (h | ⟨a, w₁, ht, hf⟩)
    · exact h.bind f
    · exact (ht.bind f).1.trans hf

@[simp] theorem reaches_pure : (pure a : Attempt α).Reaches w a' w' ↔ a = a' ∧ w = w' := by
  simp [Reaches]

@[simp] theorem not_stops_pure : ¬ (pure a : Attempt α).Stops w e := by
  simp [Stops]

theorem reaches_ofAction {x : Action α} :
    (ofAction x).Reaches w a w' ↔ (x.run w).value = a ∧ (x.run w).world = w' := by
  have hb := Action.run_bind x (fun a => (pure (.ok a) : Action (Except Failure α))) w
  change (ofAction x).run w = _ at hb
  simp [Reaches, hb]

theorem not_stops_ofAction {x : Action α} : ¬ (ofAction x).Stops w e :=
  (reaches_ofAction.2 ⟨rfl, rfl⟩).not_stops

end Course

end Attempt

namespace Action
variable {w : World} {l : Launch} {r : Ran}

theorem run_execute (h : w.start l = .ok r) : (execute l).run w =
    ⟨.ok (.ofExit r.exit), { w with tree := r.tree }, l :: r.launches⟩ := by
  simp [execute, run, h, Except.map]

theorem run_executeChecked (h : w.start l = .ok r) (hc : r.exit.code = some 0) :
    (executeChecked l).run w =
      ⟨.ok (Utf8.lossy r.exit.stdout), { w with tree := r.tree }, l :: r.launches⟩ := by
  simp [executeChecked, run, h, Except.map, Finished.ofExit, Finished.succeeded, hc]

end Action
end Triage
