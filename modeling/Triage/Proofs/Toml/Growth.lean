import Triage.Proofs.Toml.Document

set_option autoImplicit false

/-!
Documents with one member more. Statements only set members, and a statement looks at no member but
those that its keys name. So what statements have made is kept by the statements behind them, and a
member that none of them gives goes through all of them as it was put in (`steady_run`).
-/

namespace Triage.Toml

section Members
variable {ms ms' : Members} {i j k key : Text} {v x : Toml} {path : List Text} {o : Origin}

/-- The members with a value under a key, in its place if the key is there and last if it is not. -/
def setMember (ms : Members) (key : Text) (x : Toml) : Members :=
  if (member? ms key).isSome then replace ms key x else ms ++ [(key, x)]

theorem member?_cons (m : Text × Toml) (ms : Members) (i : Text) :
    member? (m :: ms) i = if m.1 = i then some m.2 else member? ms i := by
  by_cases h : m.1 = i <;> simp [member?, h]

theorem member?_append (ms : Members) (key i : Text) (x : Toml) :
    member? (ms ++ [(key, x)]) i = (member? ms i).or (if i = key then some x else none) := by
  induction ms with
  | nil => simp [member?, eq_comm]
  | cons m ms ih =>
    rw [List.cons_append, member?_cons, member?_cons, ih]
    split <;> simp

theorem member?_replace (ms : Members) (key i : Text) (x : Toml) :
    member? (replace ms key x) i =
      if i = key then (member? ms key).map fun _ => x else member? ms i := by
  induction ms with
  | nil => simp [replace, member?]
  | cons m ms ih =>
    have hr : replace (m :: ms) key x = (if m.1 = key then (key, x) else m) :: replace ms key x :=
      rfl
    rw [hr, member?_cons, member?_cons, member?_cons, ih]
    by_cases hi : i = key <;> by_cases hm : m.1 = key <;> simp [hi, hm, eq_comm]
    all_goals grind

@[simp] theorem member?_setMember (ms : Members) (key i : Text) (x : Toml) :
    member? (setMember ms key x) i = if i = key then some x else member? ms i := by
  unfold setMember
  split
  · next h =>
    obtain ⟨y, hy⟩ := Option.isSome_iff_exists.1 h
    rw [member?_replace, hy]
    rfl
  · next h =>
    rw [member?_append]
    by_cases hi : i = key
    · subst hi
      simp [Option.not_isSome_iff_eq_none.1 h]
    · simp [hi]

def Has (key : Text) : List Text → Members → Prop
  | [], ms => (member? ms key).isSome
  | j :: path, ms => ∃ o m, member? ms j = some (.table o m) ∧ Has key path m

/-- The members on the right have a value more, under a new key of the table that the keys of the
path lead to. -/
def Grown (key : Text) (v : Toml) : List Text → Members → Members → Prop
  | [], ms, ms' =>
    member? ms key = none ∧ ∀ i, member? ms' i = if i = key then some v else member? ms i
  | j :: path, ms, ms' => ∃ o m m', member? ms j = some (.table o m) ∧ Grown key v path m m' ∧
      ∀ i, member? ms' i = if i = j then some (.table o m') else member? ms i

theorem grown_concat (h : member? ms key = none) (v : Toml) :
    Grown key v [] ms (ms ++ [(key, v)]) := by
  refine ⟨h, fun i => ?_⟩
  rw [member?_append]
  by_cases hi : i = key <;> simp [hi, h]

/-- Members off the way of the keys are the same on both sides, and may be set on both. -/
theorem Grown.member?_off (h : Grown k v path ms ms') (hoff : key ≠ path.headD k) :
    member? ms' key = member? ms key := by
  cases path with
  | nil => exact (h.2 key).trans (if_neg hoff)
  | cons j path =>
    obtain ⟨o, m, m', -, -, hall⟩ := h
    exact (hall key).trans (if_neg hoff)

theorem Grown.set_off (h : Grown k v path ms ms') (hoff : key ≠ path.headD k) (x : Toml) :
    Grown k v path (setMember ms key x) (setMember ms' key x) := by
  cases path with
  | nil =>
    obtain ⟨hnone, hall⟩ := h
    have hne : k ≠ key := Ne.symm hoff
    refine ⟨by simp [hne, hnone], fun i => ?_⟩
    simp only [member?_setMember, hall]
    split
    · next hi => rw [if_neg (hi ▸ hoff)]
    · rfl
  | cons j path =>
    obtain ⟨o, m, m', hm, hgrown, hall⟩ := h
    have hne : j ≠ key := Ne.symm hoff
    refine ⟨o, m, m', by simp [hne, hm], hgrown, fun i => ?_⟩
    simp only [member?_setMember, hall]
    split
    · next hi => rw [if_neg (hi ▸ hoff)]
    · rfl

theorem Grown.set_on {m m' : Members} (h : Grown k v path m m') (o : Origin)
    (hall : ∀ i, i ≠ j → member? ms' i = member? ms i) :
    Grown k v (j :: path) (setMember ms j (.table o m)) (setMember ms' j (.table o m')) := by
  refine ⟨o, m, m', by simp, h, fun i => ?_⟩
  simp only [member?_setMember]
  split
  · rfl
  · next hi => exact hall i hi

def Lists (j : Text) (ms : Members) : Prop := ∃ ts ≠ [], member? ms j = some (.tables ts)

/-- What becomes of drafts keeps what they have, and looks at no member but those that it gives. -/
structure Steady (f : Draft → Option Draft) : Prop where
  origin : ∀ {d r}, f d = some r → r.origin = d.origin
  keeps : ∀ {d r}, f d = some r → ∀ {key path}, Has key path d.members → Has key path r.members
  lists : ∀ {d r}, f d = some r → ∀ {j}, Lists j d.members → Lists j r.members
  grows : ∀ {d r}, f d = some r → ∀ {key v path ms'}, Grown key v path d.members ms' →
    ¬ Has key path r.members →
    ∃ ms'', f ⟨d.origin, ms'⟩ = some ⟨r.origin, ms''⟩ ∧ Grown key v path r.members ms''

structure Tame (g : Option Toml → Option Toml) : Prop where
  table : ∀ {o m x}, g (some (.table o m)) = some x → ∃ o' m', x = .table o' m' ∧
    (∀ {key path}, Has key path m → Has key path m') ∧
    ∀ {key v path n}, Grown key v path m n → ¬ Has key path m' →
      ∃ n', g (some (.table o n)) = some (.table o' n') ∧ Grown key v path m' n'
  tables : ∀ {ts x}, ts ≠ [] → g (some (.tables ts)) = some x → ∃ ts' ≠ [], x = .tables ts'

def onMember (key : Text) (g : Origin → Option Toml → Option Toml) (d : Draft) : Option Draft :=
  (g d.origin (member? d.members key)).map fun x => ⟨d.origin, setMember d.members key x⟩

variable {f f' : Draft → Option Draft} {g : Origin → Option Toml → Option Toml}

theorem Steady.onMember (hg : ∀ o, Tame (g o)) : Steady (onMember key g) where
  origin {d r} h := by
    obtain ⟨x, -, rfl⟩ := Option.map_eq_some_iff.1 h
    rfl
  keeps {d r} h k path hk := by
    obtain ⟨x, hx, rfl⟩ := Option.map_eq_some_iff.1 h
    cases path with
    | nil =>
      simp only [Has, member?_setMember] at hk ⊢
      split
      · rfl
      · exact hk
    | cons j path =>
      obtain ⟨o, m, hm, hk⟩ := hk
      simp only [Has, member?_setMember]
      by_cases hj : j = key
      · subst hj
        rw [hm] at hx
        obtain ⟨o', m', rfl, hkeep, -⟩ := (hg _).table hx
        exact ⟨o', m', if_pos rfl, hkeep hk⟩
      · exact ⟨o, m, by rw [if_neg hj, hm], hk⟩
  lists {d r} h j hj := by
    obtain ⟨x, hx, rfl⟩ := Option.map_eq_some_iff.1 h
    obtain ⟨ts, hts, hm⟩ := hj
    by_cases hj : j = key
    · subst hj
      rw [hm] at hx
      obtain ⟨ts', hts', rfl⟩ := (hg _).tables hts hx
      exact ⟨ts', hts', by simp⟩
    · exact ⟨ts, hts, by simp [hj, hm]⟩
  grows {d r} h k v path ms' hgrown hno := by
    obtain ⟨x, hx, rfl⟩ := Option.map_eq_some_iff.1 h
    by_cases hoff : key = path.headD k
    · cases path with
      | nil =>
        subst hoff
        exact absurd (by simp [Has]) hno
      | cons j path =>
        obtain rfl : key = j := hoff
        obtain ⟨o, m, m', hm, hgrown, hall⟩ := hgrown
        rw [hm] at hx
        obtain ⟨o₁, m₁, rfl, -, hgrow⟩ := (hg _).table hx
        obtain ⟨n, hn, hgrown'⟩ := hgrow hgrown fun hk => hno ⟨o₁, m₁, by simp, hk⟩
        have hmem : member? ms' key = some (.table o m') := (hall key).trans (if_pos rfl)
        refine ⟨setMember ms' key (.table o₁ n), by simp [Toml.onMember, hmem, hn], ?_⟩
        exact hgrown'.set_on o₁ fun i hi => (hall i).trans (if_neg hi)
    · have hsame := hgrown.member?_off hoff
      exact ⟨setMember ms' key x, by simp [Toml.onMember, hsame, hx], hgrown.set_off hoff x⟩

theorem Steady.some : Steady some where
  origin h := by cases h; rfl
  keeps h _ _ hk := by cases h; exact hk
  lists h _ hj := by cases h; exact hj
  grows h _ _ _ ms' hgrown _ := by cases h; exact ⟨ms', rfl, hgrown⟩

theorem Steady.comp (hf : Steady f) (hf' : Steady f') : Steady fun d => (f d).bind f' where
  origin h := by
    obtain ⟨r, h₁, h₂⟩ := Option.bind_eq_some_iff.1 h
    rw [hf'.origin h₂, hf.origin h₁]
  keeps h _ _ hk := by
    obtain ⟨r, h₁, h₂⟩ := Option.bind_eq_some_iff.1 h
    exact hf'.keeps h₂ (hf.keeps h₁ hk)
  lists h _ hj := by
    obtain ⟨r, h₁, h₂⟩ := Option.bind_eq_some_iff.1 h
    exact hf'.lists h₂ (hf.lists h₁ hj)
  grows h _ _ _ ms' hgrown hno := by
    obtain ⟨r, h₁, h₂⟩ := Option.bind_eq_some_iff.1 h
    obtain ⟨ms₁, hms₁, hgrown₁⟩ := hf.grows h₁ hgrown fun hk => hno (hf'.keeps h₂ hk)
    obtain ⟨ms₂, hms₂, hgrown₂⟩ := hf'.grows h₂ hgrown₁ hno
    exact ⟨ms₂, by rw [hms₁]; exact hms₂, hgrown₂⟩

end Members

section Statements
variable {f : Draft → Option Draft} {b : Bool} {key : Text} {v : Toml}

theorem onMember_eq (key : Text) (x : Option Toml) {d : Draft} (hx : member? d.members key = x)
    (g : Origin → Option Toml → Option Toml) :
    onMember key g d = (g d.origin x).map fun y =>
      { d with members :=
          if x.isSome then replace d.members key y else d.members ++ [(key, y)] } := by
  subst hx
  rfl

def entered (b : Bool) (f : Draft → Option Draft) (rest : List Text) : Option Toml → Option Toml
  | none =>
    (enter b f rest ⟨if b then .dotted else .implied, []⟩).map fun i => .table i.origin i.members
  | some (.table o ms) =>
    if o = .inline ∨ (b ∧ !o.isOpen) then none
    else (enter b f rest ⟨o, ms⟩).map fun i => .table i.origin i.members
  | some (.tables ts) =>
    (enter b f rest ⟨.header, ts.getLast?.getD []⟩).map fun i =>
      .tables (ts.dropLast ++ [i.members])
  | some _ => none

theorem enter_cons (b : Bool) (f : Draft → Option Draft) (key : Text) (rest : List Text) :
    enter b f (key :: rest) = onMember key fun _ => entered b f rest := by
  funext d
  rw [enter]
  split
  · next h =>
    rw [onMember_eq key _ h, entered, Option.map_map]
    exact Option.map_eq_bind.symm
  · next h =>
    rw [onMember_eq key _ h, entered]
    split
    · rfl
    · rw [Option.map_map]
      exact Option.map_eq_bind.symm
  · next h =>
    rw [onMember_eq key _ h, entered, Option.map_map]
    exact Option.map_eq_bind.symm
  · next x hx hn h =>
    rw [onMember_eq key _ h]
    cases x with
    | table o ms => exact absurd rfl (hx o ms)
    | tables ts => exact absurd rfl (hn ts)
    | _ => rfl

theorem tame_entered {rest : List Text} (hf : Steady (enter b f rest)) :
    Tame (entered b f rest) where
  table {o m x} hx := by
    rw [entered] at hx
    split at hx
    · cases hx
    · next hopen =>
      obtain ⟨r, hr, rfl⟩ := Option.map_eq_some_iff.1 hx
      refine ⟨r.origin, r.members, rfl, hf.keeps hr, fun {key v path n} hgrown hno => ?_⟩
      obtain ⟨n', hn, hgrown'⟩ := hf.grows hr hgrown hno
      exact ⟨n', by rw [entered, if_neg hopen, hn]; rfl, hgrown'⟩
  tables hts hx := by
    obtain ⟨r, -, rfl⟩ := Option.map_eq_some_iff.1 hx
    exact ⟨_, by simp, rfl⟩

theorem steady_enter (b : Bool) (hf : Steady f) (path : List Text) : Steady (enter b f path) := by
  induction path with
  | nil => exact hf
  | cons key rest ih =>
    rw [enter_cons]
    exact .onMember fun _ => tame_entered ih

def assigned (path : List Text) (v : Toml) (o : Origin) : Option Toml → Option Toml
  | none => if path ≠ [] ∧ o ≠ .dotted then none else some v
  | some _ => none

theorem assign_eq (path : List Text) (key : Text) (v : Toml) :
    assign path key v = enter true (onMember key (assigned path v)) path := by
  funext d
  rw [assign]
  congr 1
  funext d
  cases h : member? d.members key with
  | none =>
    rw [onMember_eq key _ h, assigned]
    split <;> simp
  | some x => simp [onMember_eq key _ h, assigned]

theorem steady_assign (path : List Text) (key : Text) (v : Toml) : Steady (assign path key v) := by
  rw [assign_eq]
  refine steady_enter true (.onMember fun o => ⟨?_, ?_⟩) path
  · intro o m x h
    cases h
  · intro ts x _ h
    cases h

def headed : Option Toml → Option Toml
  | none => some (.table .header [])
  | some (.table .implied ms) => some (.table .header ms)
  | some _ => none

theorem head_eq (path : List Text) (key : Text) :
    head path key = enter false (onMember key fun _ => headed) path := by
  funext d
  rw [head]
  congr 1
  funext d
  split
  · next h => rw [onMember_eq key _ h]; rfl
  · next h => rw [onMember_eq key _ h]; rfl
  · next hn h =>
    rw [onMember_eq key _ h, headed]
    · rfl
    · exact hn

theorem steady_headed : Steady (onMember key fun _ => headed) := by
  refine .onMember fun _ => ⟨?_, ?_⟩
  · intro o m x h
    cases o with
    | implied =>
      cases h
      exact ⟨_, m, rfl, id, fun {_ _ _ n} hgrown _ => ⟨n, rfl, hgrown⟩⟩
    | header | dotted | inline => cases h
  · intro ts x _ h
    cases h

def headedNext : Option Toml → Option Toml
  | none => some (.tables [[]])
  | some (.tables ts) => some (.tables (ts ++ [[]]))
  | some _ => none

theorem headNext_eq (path : List Text) (key : Text) :
    headNext path key = enter false (onMember key fun _ => headedNext) path := by
  funext d
  rw [headNext]
  congr 1
  funext d
  split
  · next h => rw [onMember_eq key _ h]; rfl
  · next h => rw [onMember_eq key _ h]; rfl
  · next hn h =>
    rw [onMember_eq key _ h, headedNext]
    · rfl
    · exact hn

theorem steady_headedNext : Steady (onMember key fun _ => headedNext) := by
  refine .onMember fun _ => ⟨?_, ?_⟩
  · intro o m x h
    cases h
  · intro ts x _ h
    cases h
    exact ⟨_, by simp, rfl⟩

/-- What one statement does to the draft, with the keys that lines behind it go to. -/
theorem steady_step (current : List Text) (s : Statement) : ∃ f current', Steady f ∧
    ∀ root, Progress.step ⟨root, current⟩ s = (f root).map (Progress.mk · current') := by
  cases s with
  | assignment k v =>
    exact ⟨_, current, steady_enter false (steady_assign k.path k.last v) current,
      fun root => Option.map_eq_bind.symm⟩
  | header k =>
    refine ⟨head k.path k.last, k.parts, ?_, fun root => Option.map_eq_bind.symm⟩
    rw [head_eq]
    exact steady_enter false steady_headed k.path
  | nextHeader k =>
    refine ⟨headNext k.path k.last, k.parts, ?_, fun root => Option.map_eq_bind.symm⟩
    rw [headNext_eq]
    exact steady_enter false steady_headedNext k.path

theorem steady_run (current : List Text) (l : List Statement) : ∃ f current', Steady f ∧
    ∀ root, l.foldlM Progress.step ⟨root, current⟩ = (f root).map (Progress.mk · current') := by
  induction l generalizing current with
  | nil => exact ⟨_, current, .some, fun root => rfl⟩
  | cons s l ih =>
    obtain ⟨f, c, hf, hstep⟩ := steady_step current s
    obtain ⟨f', c', hf', hrun⟩ := ih c
    refine ⟨_, c', hf.comp hf', fun root => ?_⟩
    rw [List.foldlM_cons, hstep]
    cases f root with
    | none => rfl
    | some r => exact hrun r

end Statements

section Current
variable {f : Draft → Option Draft} {j key : Text} {v : Toml} {path q : List Text} {d r : Draft}
  {ms : Members} {p p' : Progress} {s : Statement} {l : List Statement}

/-- The keys lead through tables that lines may go into, up to several of one name. -/
def Enters : List Text → Members → Prop
  | [], _ => True
  | j :: path, ms =>
    (∃ o m, member? ms j = some (.table o m) ∧ o ≠ .inline ∧ Enters path m) ∨ Lists j ms

theorem enters_enter (hf : Steady f) (hq : ∀ {d r}, f d = some r → Enters q r.members)
    (h : enter false f path d = some r) : Enters (path ++ q) r.members := by
  induction path generalizing d r with
  | nil => exact hq h
  | cons key rest ih =>
    have horigin {d r : Draft} : enter false f rest d = some r → r.origin = d.origin :=
      (steady_enter false hf rest).origin
    rw [enter_cons] at h
    obtain ⟨x, hx : entered false f rest (member? d.members key) = some x, rfl⟩ :=
      Option.map_eq_some_iff.1 h
    simp only [List.cons_append, Enters, Lists, member?_setMember, if_true]
    cases hm : member? d.members key with
    | none =>
      rw [hm] at hx
      obtain ⟨i, hi, rfl⟩ := Option.map_eq_some_iff.1 hx
      exact .inl ⟨_, _, rfl, by simp [horigin hi], ih hi⟩
    | some y =>
      rw [hm] at hx
      cases y with
      | table o m =>
        rw [entered] at hx
        split at hx
        · cases hx
        · next hopen =>
          obtain ⟨i, hi, rfl⟩ := Option.map_eq_some_iff.1 hx
          exact .inl ⟨_, _, rfl, fun e => hopen (.inl ((horigin hi).symm.trans e)), ih hi⟩
      | tables ts =>
        obtain ⟨i, -, rfl⟩ := Option.map_eq_some_iff.1 hx
        exact .inr ⟨_, by simp, rfl⟩
      | _ => cases hx

theorem headed_eq_some {y : Option Toml} {x : Toml} (h : headed y = some x) :
    ∃ m, x = .table .header m := by
  unfold headed at h
  split at h
  · exact ⟨_, (Option.some.inj h).symm⟩
  · exact ⟨_, (Option.some.inj h).symm⟩
  · cases h

theorem headedNext_eq_some {y : Option Toml} {x : Toml} (h : headedNext y = some x) :
    ∃ ts ≠ [], x = .tables ts := by
  unfold headedNext at h
  split at h
  · exact ⟨_, by simp, (Option.some.inj h).symm⟩
  · exact ⟨_, by simp, (Option.some.inj h).symm⟩
  · cases h

theorem enters_step (h : p.step s = some p') : Enters p'.current p'.root.members := by
  cases s with
  | assignment k v =>
    obtain ⟨r, hr, hp⟩ := Option.bind_eq_some_iff.1 h
    cases hp
    have he : Enters (p.current ++ []) r.members :=
      enters_enter (steady_assign k.path k.last v) (fun _ => trivial) hr
    rwa [List.append_nil] at he
  | header k =>
    obtain ⟨r, hr, hp⟩ := Option.bind_eq_some_iff.1 h
    cases hp
    rw [head_eq] at hr
    refine enters_enter steady_headed (fun h => ?_) hr
    obtain ⟨x, hx, rfl⟩ := Option.map_eq_some_iff.1 h
    obtain ⟨m, rfl⟩ := headed_eq_some hx
    exact .inl ⟨.header, m, by simp, by decide, trivial⟩
  | nextHeader k =>
    obtain ⟨r, hr, hp⟩ := Option.bind_eq_some_iff.1 h
    cases hp
    rw [headNext_eq] at hr
    refine enters_enter steady_headedNext (fun h => ?_) hr
    obtain ⟨x, hx, rfl⟩ := Option.map_eq_some_iff.1 h
    obtain ⟨ts, hts, rfl⟩ := headedNext_eq_some hx
    exact .inr ⟨ts, hts, by simp⟩

theorem enters_run (hp : Enters p.current p.root.members)
    (h : l.foldlM Progress.step p = some p') : Enters p'.current p'.root.members := by
  induction l generalizing p with
  | nil =>
    cases h
    exact hp
  | cons s l ih =>
    rw [List.foldlM_cons] at h
    obtain ⟨p₁, h₁, h⟩ := Option.bind_eq_some_iff.1 h
    exact ih (enters_step h₁) h

def Leads : List Text → Members → Prop
  | [], _ => True
  | j :: path, ms => ∃ o m, member? ms j = some (.table o m) ∧ o ≠ .inline ∧ Leads path m

theorem exists_enter_assign (hl : Leads path d.members) (hno : ¬ Has key path d.members) :
    ∃ ms, enter false (assign [] key v) path d = some ⟨d.origin, ms⟩ ∧
      Grown key v path d.members ms := by
  induction path generalizing d with
  | nil =>
    have hnone : member? d.members key = none := Option.not_isSome_iff_eq_none.1 hno
    exact ⟨d.members ++ [(key, v)], by simp [enter, assign, hnone], grown_concat hnone v⟩
  | cons j path ih =>
    obtain ⟨o, m, hm, ho, hl⟩ := hl
    have hno' : ¬ Has key path m := fun hk => hno ⟨o, m, hm, hk⟩
    obtain ⟨m', hm', hgrown⟩ := ih (d := ⟨o, m⟩) hl hno'
    refine ⟨setMember d.members j (.table o m'), ?_, o, m, m', hm, hgrown, fun i => by simp⟩
    have he : entered false (assign [] key v) path (some (.table o m)) = some (.table o m') := by
      simp [entered, ho, hm']
    rw [enter_cons, onMember, hm, he]
    rfl

end Current

end Triage.Toml
