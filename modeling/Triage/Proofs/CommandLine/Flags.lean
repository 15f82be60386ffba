import Mathlib.Data.List.TakeWhile
import Triage.CommandLine

set_option autoImplicit false

namespace Triage.CommandLine

def separator : Text := ['-', '-']

def spelled (name : Text) : Text := '-' :: '-' :: name

structure Grammar.Switch (g : Grammar) (name : Text) : Prop where
  nonempty : name ≠ []
  plain : '=' ∉ name
  bare : ∀ o ∈ g.options, o.name = name → o.short = none ∧ Scan.takesValue o = false

instance (g : Grammar) (name : Text) : Decidable (g.Switch name) :=
  decidable_of_iff (name ≠ [] ∧ '=' ∉ name ∧
      ∀ o ∈ g.options, o.name = name → o.short = none ∧ Scan.takesValue o = false)
    ⟨fun h => ⟨h.1, h.2.1, h.2.2⟩, fun h => ⟨h.nonempty, h.plain, h.bare⟩⟩

theorem exists_of_bind {ε α β : Type} {x : Except ε α} {f : α → Except ε β} {b : β}
    (h : (x >>= f) = .ok b) : ∃ a, x = .ok a ∧ f a = .ok b := by
  cases x with
  | error e => cases h
  | ok a => exact ⟨a, rfl, h⟩

section Tokens
variable {arg name : Text}

theorem Token.of_long (h : Token.ofArg arg = .long name none) : arg = spelled name := by
  unfold Token.ofArg at h
  split at h
  · cases h
  · next r _ =>
    split at h
    · cases h
      rfl
    · cases h
  · cases h
  · cases h

theorem Token.of_dashes (h : Token.ofArg arg = .dashes) : arg = separator := by
  unfold Token.ofArg at h
  split at h
  · rfl
  · split at h <;> cases h
  · cases h
  · cases h

theorem Token.ofArg_spelled (hn : name ≠ []) (hp : '=' ∉ name) :
    Token.ofArg (spelled name) = .long name none := by
  have hd : name.dropWhile (· ≠ '=') = [] := by
    rw [List.dropWhile_eq_nil_iff]
    intro c hc
    have hne : c ≠ '=' := fun e => hp (e ▸ hc)
    simpa using hne
  obtain ⟨c, r, rfl⟩ := List.exists_cons_of_ne_nil hn
  simp only [spelled, Token.ofArg]
  rw [hd]

end Tokens

namespace Scan
variable {g : Grammar} {name : Text} {s s' : Scan} {o : OptionSpec}

def Free (s : Scan) (name : Text) : Prop := ∀ p, s.pending = some p → p.option.name ≠ name

theorem free_start (name : Text) : start.Free name := nofun

/-- The scan goes on under the same rules, with the flag set if it was or if it is now. -/
structure Moves (name : Text) (set : Prop) (s s' : Scan) : Prop where
  has : s'.has name = true ↔ s.has name = true ∨ set
  trailing : s'.trailing = s.trailing
  free : s'.Free name

@[simp] theorem has_put (s : Scan) (n v : Text) :
    (s.put n v).has name = (s.has name || n = name) := by
  simp [put, has]

theorem takeValue_ok {v : Text} (h : s.takeValue o v = .ok s') : s' = s.put o.name v := by
  unfold takeValue at h
  split at h
  · cases h
  · split at h
    · split at h
      · cases h
        rfl
      · cases h
    · cases h

theorem moves_resolve (hf : s.Free name) (h : s.resolve = .ok s') :
    Moves name False s s' ∧ s'.pending = none := by
  unfold resolve at h
  split at h
  · next hp =>
    cases h
    exact ⟨⟨by simp, rfl, hf⟩, hp⟩
  · cases h
  · next p v hp =>
    have hne := hf _ hp
    rw [takeValue_ok h]
    refine ⟨⟨?_, rfl, nofun⟩, rfl⟩
    simp only [has_put, hne]
    simp [has]

theorem Moves.trans {p q : Prop} {s'' : Scan} (h : Moves name p s s') (h' : Moves name q s' s'') :
    Moves name (p ∨ q) s s'' where
  has := by rw [h'.has, h.has, or_assoc]
  trailing := h'.trailing.trans h.trailing
  free := h'.free

theorem moves_put (hp : s.pending = none) (n v : Text) : Moves name (n = name) s (s.put n v) where
  has := by simp
  trailing := rfl
  free := fun p h => nomatch hp.symm.trans h

theorem takeFlag_ok (h : s.takeFlag g o = .ok s') :
    ∃ s₁, s.resolve = .ok s₁ ∧ s' = s₁.put o.name [] := by
  obtain ⟨s₁, hr, h⟩ := exists_of_bind h
  refine ⟨s₁, hr, ?_⟩
  split at h
  · cases h
  · cases h
  · cases h
    rfl
  · split at h
    · cases h
    · cases h
      rfl

theorem moves_takeFlag (hf : s.Free name) (h : s.takeFlag g o = .ok s') :
    Moves name (o.name = name) s s' := by
  obtain ⟨s₁, hr, rfl⟩ := takeFlag_ok h
  obtain ⟨hm, hp⟩ := moves_resolve hf hr
  simpa using hm.trans (moves_put hp o.name [])

theorem moves_attach {v : Text} (hf : s.Free name) (hn : o.name ≠ name)
    (h : s.attach o v = .ok s') : Moves name False s s' := by
  obtain ⟨s₁, hr, h⟩ := exists_of_bind h
  obtain ⟨hm, hp⟩ := moves_resolve hf hr
  rw [takeValue_ok h]
  simpa [hn] using hm.trans (moves_put hp o.name v)

theorem moves_await (hf : s.Free name) (hn : o.name ≠ name) (h : s.await o = .ok s') :
    Moves name False s s' := by
  obtain ⟨s₁, hr, h⟩ := exists_of_bind h
  cases h
  obtain ⟨hm, -⟩ := moves_resolve hf hr
  refine ⟨hm.has, hm.trailing, ?_⟩
  rintro p hp
  cases hp
  exact hn

theorem moves_takeLong {n : Text} {v : Option Text} (hs : g.Switch name) (hf : s.Free name)
    (h : s.takeLong g n v = .ok s') :
    Moves name (n = name ∧ v = none) s s' ∧ (n = name → (g.long? name).isSome) := by
  unfold takeLong at h
  cases ho : g.long? n with
  | none => simp [ho] at h
  | some o =>
    have hn : o.name = n := by simpa using List.find?_some ho
    have hk : n = name → (g.long? name).isSome := by
      rintro rfl
      rw [ho]
      rfl
    refine ⟨?_, hk⟩
    have hb := hs.bare o (List.mem_of_find?_eq_some ho)
    rw [hn] at hb
    simp only [ho] at h
    by_cases he : n = name
    · -- the option of the flag itself takes no value, so it comes without one
      rw [(hb he).2] at h
      cases v with
      | some v => cases h
      | none =>
        have hm := moves_takeFlag hf h
        simpa [hn, he] using hm
    · have hne : o.name ≠ name := fun e => he (hn.symm.trans e)
      have hfalse : (n = name ∧ v = none) = False := by simp [he]
      rw [hfalse]
      cases ht : takesValue o <;> cases v <;> simp only [ht] at h
      · simpa [hne] using moves_takeFlag hf h
      · cases h
      · exact moves_await hf hne h
      · exact moves_attach hf hne h

theorem moves_takeShorts {cs : Text} (hs : g.Switch name) (hf : s.Free name)
    (h : s.takeShorts g cs = .ok s') : Moves name False s s' := by
  induction cs generalizing s with
  | nil =>
    cases h
    exact ⟨by simp, rfl, hf⟩
  | cons c r ih =>
    unfold takeShorts at h
    cases ho : g.short? c with
    | none => simp [ho] at h
    | some o =>
      have hc : o.short = some c := by simpa using List.find?_some ho
      have hne : o.name ≠ name := fun e => by
        have hb := (hs.bare o (List.mem_of_find?_eq_some ho) e).1
        simp [hb] at hc
      simp only [ho] at h
      split at h
      · split at h
        · exact moves_await hf hne h
        · exact moves_attach hf hne h
        · exact moves_attach hf hne h
      · obtain ⟨s₁, ht, h⟩ := exists_of_bind h
        have hm := moves_takeFlag hf ht
        simpa [hne] using hm.trans (ih hm.free h)

theorem takeOperand_ok {arg : Text} (h : s.takeOperand g arg = .ok s') :
    g.operands ≠ .nowhere ∧
      ∃ s₁, s.resolve = .ok s₁ ∧ s' = { s₁ with operands := s₁.operands ++ [arg] } := by
  unfold takeOperand at h
  split at h
  · split at h <;> cases h
  · next ho =>
    split at h
    · obtain ⟨s₁, hr, h⟩ := exists_of_bind h
      cases h
      exact ⟨by simp [ho], s₁, hr, rfl⟩
    · cases h
  · next ho =>
    obtain ⟨s₁, hr, h⟩ := exists_of_bind h
    cases h
    exact ⟨by simp [ho], s₁, hr, rfl⟩

theorem moves_takeOperand {arg : Text} (hf : s.Free name) (h : s.takeOperand g arg = .ok s') :
    Moves name False s s' := by
  obtain ⟨-, s₁, hr, rfl⟩ := takeOperand_ok h
  obtain ⟨hm, -⟩ := moves_resolve hf hr
  exact ⟨hm.has, hm.trailing, hm.free⟩

def next (g : Grammar) (s : Scan) (arg : Text) : Except UsageError Scan :=
  if s.trailing then s.takeOperand g arg
  else match Token.ofArg arg with
    | .dashes => .ok { s with trailing := true }
    | .long name v => s.takeLong g name v
    | .shorts cs => s.takeShorts g cs
    | .word =>
      match s.pending with
      | some ⟨o, none⟩ => .ok { s with pending := some ⟨o, some arg⟩ }
      | _ => s.takeOperand g arg

theorem scan_cons (g : Grammar) (s : Scan) (arg : Text) (rest : List Text) :
    g.scan s (arg :: rest) =
      if s.trailing = false ∧ s.awaits = false ∧ arg ∈ g.subcommands then
        .ok (s, some (arg, rest))
      else s.next g arg >>= fun s => g.scan s rest := by
  rw [Grammar.scan, next]
  cases ht : s.trailing with
  | true => simp
  | false =>
    by_cases hc : s.awaits = false ∧ arg ∈ g.subcommands
    · simp [hc]
    · have hb : ¬ (!s.awaits && g.subcommands.contains arg) = true := by simpa using hc
      simp only [Bool.false_eq_true, if_false, hb, hc, true_and]
      cases Token.ofArg arg with
      | word =>
        cases s.pending with
        | none => rfl
        | some p => obtain ⟨o, v⟩ := p; cases v <;> rfl
      | _ => rfl

/-- Arguments that are no subcommands set a flag just by naming it, in front of the separator. -/
structure Follows (g : Grammar) (name : Text) (args : List Text) (s s' : Scan) : Prop where
  has : s'.has name = true ↔ s.has name = true ∨
    s.trailing = false ∧ spelled name ∈ args.takeWhile (· ≠ separator)
  trailing : s'.trailing = true ↔ s.trailing = true ∨ separator ∈ args
  free : s'.Free name
  known : s'.has name = true → s.has name = true ∨ (g.long? name).isSome

theorem Moves.follows {set : Prop} {arg : Text} (h : Moves name set s s')
    (hset : set ↔ s.trailing = false ∧ arg = spelled name)
    (hd : arg = separator → s.trailing = true) (hk : set → (g.long? name).isSome) :
    Follows g name [arg] s s' where
  has := by
    rw [h.has, hset]
    by_cases ha : arg = separator
    · simp [ha, hd ha]
    · have hc : arg = spelled name ↔ spelled name = arg := eq_comm
      simp [ha, hc]
  trailing := by
    rw [h.trailing]
    constructor
    · exact .inl
    · rintro (ht | ha)
      · exact ht
      · exact hd (List.mem_singleton.1 ha).symm
  free := h.free
  known hh := (h.has.1 hh).imp_right hk

theorem follows_next {arg : Text} (hs : g.Switch name) (hf : s.Free name)
    (h : s.next g arg = .ok s') : Follows g name [arg] s s' := by
  have hspelled := Token.ofArg_spelled hs.nonempty hs.plain
  unfold next at h
  cases ht : s.trailing with
  | true =>
    rw [if_pos ht] at h
    exact (moves_takeOperand hf h).follows (by simp [ht]) (fun _ => ht) nofun
  | false =>
    rw [if_neg (by simp [ht])] at h
    have hne {t : Token} (ho : Token.ofArg arg = t) (hl : t ≠ .long name none) :
        False ↔ s.trailing = false ∧ arg = spelled name :=
      iff_of_false id fun e => hl (ho.symm.trans (e.2 ▸ hspelled))
    have hsep {t : Token} (ho : Token.ofArg arg = t) (hl : t ≠ .dashes) :
        arg = separator → s.trailing = true :=
      fun e => absurd (ho.symm.trans (e ▸ rfl)) hl
    cases ho : Token.ofArg arg with
    | dashes =>
      obtain rfl := Token.of_dashes ho
      simp only [ho] at h
      cases h
      refine ⟨?_, by simp, hf, .inl⟩
      simp [has]
    | long n v =>
      simp only [ho] at h
      obtain ⟨hm, hk⟩ := moves_takeLong hs hf h
      refine hm.follows ?_ (hsep ho nofun) fun e => hk e.1
      constructor
      · rintro ⟨rfl, rfl⟩
        exact ⟨ht, Token.of_long ho⟩
      · rintro ⟨-, rfl⟩
        rw [hspelled] at ho
        cases ho
        exact ⟨rfl, rfl⟩
    | shorts cs =>
      simp only [ho] at h
      exact (moves_takeShorts hs hf h).follows (hne ho nofun) (hsep ho nofun) nofun
    | word =>
      simp only [ho] at h
      split at h
      · next o hp =>
        cases h
        have hm : Moves name False s { s with pending := some ⟨o, some arg⟩ } := by
          refine ⟨by simp [has], rfl, ?_⟩
          rintro p ⟨⟩
          exact hf ⟨o, none⟩ hp
        exact hm.follows (hne ho nofun) (hsep ho nofun) nofun
      · exact (moves_takeOperand hf h).follows (hne ho nofun) (hsep ho nofun) nofun

theorem mem_takeWhile_append {a b : List Text} {x d : Text} :
    x ∈ (a ++ b).takeWhile (· ≠ d) ↔ x ∈ a.takeWhile (· ≠ d) ∨ d ∉ a ∧ x ∈ b.takeWhile (· ≠ d) := by
  induction a with
  | nil => simp
  | cons c a ih =>
    by_cases hc : c = d
    · simp [hc]
    · have hd : ¬ d = c := fun e => hc e.symm
      simp only [List.cons_append, List.takeWhile_cons, hc, ne_eq, not_false_eq_true, decide_true,
        if_true, List.mem_cons, ih, hd, false_or, or_assoc]

theorem Follows.append {as bs : List Text} {s'' : Scan} (h : Follows g name as s s')
    (h' : Follows g name bs s' s'') : Follows g name (as ++ bs) s s'' where
  has := by
    have ht : s'.trailing = false ↔ s.trailing = false ∧ separator ∉ as := by
      rw [← Bool.not_eq_true, h.trailing, not_or, Bool.not_eq_true]
    rw [h'.has, h.has, ht, mem_takeWhile_append, and_or_left, or_assoc, and_assoc]
  trailing := by rw [h'.trailing, h.trailing, List.mem_append, or_assoc]
  free := h'.free
  known hh := (h'.known hh).elim h.known .inr

def handed : Option (Text × List Text) → List Text
  | none => []
  | some (name, args) => name :: args

theorem follows_scan {args : List Text} {sub : Option (Text × List Text)} (hs : g.Switch name)
    (hf : s.Free name) (h : g.scan s args = .ok (s', sub)) :
    ∃ front, args = front ++ handed sub ∧ Follows g name front s s' ∧
      ∀ e ∈ sub, s'.trailing = false ∧ e.1 ∈ g.subcommands := by
  induction args generalizing s with
  | nil =>
    cases h
    exact ⟨[], rfl, ⟨by simp, by simp, hf, .inl⟩, nofun⟩
  | cons arg rest ih =>
    rw [scan_cons] at h
    split at h
    · next hc =>
      cases h
      refine ⟨[], rfl, ⟨by simp, by simp, hf, .inl⟩, ?_⟩
      rintro e ⟨⟩
      exact ⟨hc.1, hc.2.2⟩
    · -- what the step left to come is not the flag's, so the rest starts as free as this did
      obtain ⟨s₁, hn, h⟩ := exists_of_bind h
      have hfol := follows_next hs hf hn
      obtain ⟨front, rfl, hfront, hsub⟩ := ih hfol.free h
      exact ⟨arg :: front, rfl, hfol.append hfront, hsub⟩

end Scan

section Invocations
variable {g : Grammar} {name : Text} {argv args : List Text}

theorem has_scanAll {s : Scan} (hs : g.Switch name) (hg : g.subcommands = [])
    (h : scanAll g args = .ok s) :
    s.has name = true ↔ spelled name ∈ args.takeWhile (· ≠ separator) := by
  obtain ⟨⟨s₁, sub⟩, hscan, hr⟩ := exists_of_bind h
  obtain ⟨front, hargs, hfol, hsub⟩ := Scan.follows_scan hs (Scan.free_start name) hscan
  have hnone : sub = none := by
    cases sub with
    | none => rfl
    | some e => simpa [hg] using (hsub e rfl).2
  obtain ⟨hm, -⟩ := Scan.moves_resolve hfol.free hr
  rw [hm.has, or_false, hfol.has, hargs, hnone]
  simp [Scan.has, Scan.start, Scan.handed]

/-- What stands in front of a subcommand is neither the separator nor a flag unknown there. -/
theorem mem_takeWhile_scan {root : Scan} {sub : Text} (hs : g.Switch name)
    (hg : g.long? name = none) (h : g.scan .start argv = .ok (root, some (sub, args)))
    (hsub : sub ≠ spelled name) (hsep : sub ≠ separator) :
    spelled name ∈ argv.takeWhile (· ≠ separator) ↔
      spelled name ∈ args.takeWhile (· ≠ separator) := by
  obtain ⟨front, rfl, hfol, hend⟩ := Scan.follows_scan hs (Scan.free_start name) h
  have hn : separator ∉ front := fun hm => by
    have ht := hfol.trailing.2 (.inr hm)
    rw [(hend _ rfl).1] at ht
    cases ht
  have hf : spelled name ∉ front.takeWhile (· ≠ separator) := fun hm => by
    have hh := hfol.known (hfol.has.2 (.inr ⟨rfl, hm⟩))
    simp [Scan.has, Scan.start, hg] at hh
  rw [Scan.mem_takeWhile_append, iff_false_intro hf, false_or, and_iff_right hn, Scan.handed,
    List.takeWhile_cons, if_pos (by simpa using hsep), List.mem_cons, or_iff_right hsub.symm]

theorem scanCommand_check {sub : Text} {s : Scan} {a : CheckArgs}
    (h : scanCommand sub args = .ok (s, .check a)) :
    sub = "check".toList ∧ scanAll checkGrammar args = .ok s ∧ CheckArgs.ofScan s = .ok a := by
  unfold scanCommand at h
  split at h
  · next hn =>
    obtain ⟨s, hs, h⟩ := exists_of_bind h
    obtain ⟨a, ha, h⟩ := exists_of_bind h
    cases h
    exact ⟨hn, hs, ha⟩
  · split at h
    · obtain ⟨s, hs, h⟩ := exists_of_bind h
      obtain ⟨a, ha, h⟩ := exists_of_bind h
      cases h
    · obtain ⟨s, hs, h⟩ := exists_of_bind h
      obtain ⟨a, ha, h⟩ := exists_of_bind h
      cases h

theorem parse_check {i : Invocation} {a : CheckArgs} (h : Invocation.parse argv = .ok i)
    (hc : i.command = .check a) : ∃ root args s,
      rootGrammar.scan .start argv = .ok (root, some ("check".toList, args)) ∧
      scanAll checkGrammar args = .ok s ∧ CheckArgs.ofScan s = .ok a := by
  obtain ⟨⟨root, sub⟩, hroot, h⟩ := exists_of_bind h
  cases sub with
  | none =>
    obtain ⟨_, -, h⟩ := exists_of_bind h
    cases h
  | some e =>
    obtain ⟨sub, args⟩ := e
    change (if sub = "help".toList then _ else _) = _ at h
    split at h
    · cases h
    · obtain ⟨⟨s, command⟩, hs, h⟩ := exists_of_bind h
      obtain ⟨_, -, h⟩ := exists_of_bind h
      cases h
      cases hc
      obtain ⟨rfl, hs, ha⟩ := scanCommand_check hs
      exact ⟨root, args, s, hroot, hs, ha⟩

theorem alwaysSucceed_ofScan {s : Scan} {a : CheckArgs} (h : CheckArgs.ofScan s = .ok a) :
    a.alwaysSucceed = s.has "exit-code0".toList := by
  unfold CheckArgs.ofScan at h
  split at h
  · cases h
  · split at h
    · cases h
    · cases h
      rfl

/-- Success is forced where the flag stands among the arguments in front of the separator. -/
theorem alwaysSucceed_iff {i : Invocation} {a : CheckArgs} (h : Invocation.parse argv = .ok i)
    (hc : i.command = .check a) :
    a.alwaysSucceed = true ↔ "--exit-code0".toList ∈ argv.takeWhile (· ≠ "--".toList) := by
  obtain ⟨root, args, s, hroot, hs, ha⟩ := parse_check h hc
  have hsw : checkGrammar.Switch "exit-code0".toList := by decide
  have hsw' : rootGrammar.Switch "exit-code0".toList := by decide
  have hargs := mem_takeWhile_scan hsw' (by decide) hroot (by decide) (by decide)
  rw [alwaysSucceed_ofScan ha, has_scanAll hsw rfl hs, ← hargs]
  rfl

end Invocations
end Triage.CommandLine
