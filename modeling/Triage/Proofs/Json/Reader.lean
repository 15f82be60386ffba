import Triage.Json.Record
import Triage.Json.Writer
import Triage.Proofs.Json.Quoted

set_option autoImplicit false

namespace Triage.Json

structure Layout.Blank (l : Layout) : Prop where
  line : ∀ depth, (l.line depth).all isGap = true
  gap : l.gap.all isGap = true

theorem Layout.blank_compact : Layout.compact.Blank := ⟨fun _ => rfl, rfl⟩

theorem Layout.blank_pretty : Layout.pretty.Blank where
  line depth := by simp [Layout.pretty, isGap]
  gap := rfl

/-- Documents whose numbers are natural and whose texts are spelled as `escape` spells them. -/
inductive Spelt : Json → Prop
  | null : Spelt .null
  | bool (b : Bool) : Spelt (.bool b)
  | number (n : Nat) : Spelt (ofNat n)
  | string (t : Text) : Spelt (ofText t)
  | array {xs : List Json} (h : ∀ x ∈ xs, Spelt x) : Spelt (.array xs)
  | object {ms : List (Text × Json)} (hk : ∀ m ∈ ms, ∃ k, m.1 = escape k)
      (h : ∀ m ∈ ms, Spelt m.2) : Spelt (.object ms)

def isStop (c : Char) : Bool := isGap c || c = ',' || c = ']' || c = '\x7d'

def Stopped (r : Text) : Prop := r.head?.all isStop = true

section Blanks
variable {g r : Text}

theorem Stopped.append (hg : g.all isGap = true) (hr : Stopped r) : Stopped (g ++ r) := by
  cases g with
  | nil => exact hr
  | cons c g =>
    simp only [List.all_cons, Bool.and_eq_true] at hg
    simp [Stopped, isStop, hg.1]

theorem skipGap_append (hg : g.all isGap = true) (r : Text) : skipGap (g ++ r) = skipGap r :=
  List.dropWhile_append_of_pos (List.all_eq_true.1 hg)

theorem skipGap_cons {c : Char} (h : isGap c = false) (r : Text) : skipGap (c :: r) = c :: r := by
  simp [skipGap, h]

theorem takeValue_append (hg : g.all isGap = true) (n : Nat) (r : Text) :
    takeValue n (g ++ r) = takeValue n r := by
  cases n with
  | zero => rfl
  | succ n => rw [takeValue, takeValue, skipGap_append hg]

theorem takeItems_append (hg : g.all isGap = true) (n : Nat) (r : Text) :
    takeItems n (g ++ r) = takeItems n r := by
  cases n with
  | zero => rfl
  | succ n => rw [takeItems, takeItems, takeValue_append hg]

theorem takeMembers_append (hg : g.all isGap = true) (n : Nat) (r : Text) :
    takeMembers n (g ++ r) = takeMembers n r := by
  cases n with
  | zero => rfl
  | succ n => rw [takeMembers, takeMembers, skipGap_append hg]

end Blanks

section Scalars
variable {r : Text}

theorem takeRun_append {ds : Text} (hne : ds ≠ []) (hd : ∀ c ∈ ds, Text.isDigit c = true)
    (hr : r.head?.any Text.isDigit = false) : takeRun (ds ++ r) = some (ds, r) := by
  obtain ⟨htake, hdrop⟩ := Text.run_append hd hr
  unfold takeRun
  rw [htake, hdrop]
  cases ds with
  | nil => exact absurd rfl hne
  | cons d ds => rfl

/-- A stop carries no number on: it is no digit and begins neither fraction nor exponent. -/
theorem ne_of_isStop {c d : Char} (hc : isStop c = true) (hd : isStop d = false) : c ≠ d := by
  rintro rfl
  simp [hc] at hd

theorem isDigit_of_isStop {c : Char} (hc : isStop c = true) : Text.isDigit c = false := by
  simp only [isStop, isGap, Bool.or_eq_true, decide_eq_true_eq] at hc
  rcases hc with (((((rfl | rfl) | rfl) | rfl) | rfl) | rfl) | rfl <;> decide

theorem takeWhole_ofNat (n : Nat) (hr : Stopped r) :
    takeWhole (Text.ofNat n ++ r) = some (Text.ofNat n, r) := by
  by_cases hn : n = 0
  · subst hn
    rfl
  · have hd : r.head?.any Text.isDigit = false := by
      cases r with
      | nil => rfl
      | cons c r => exact isDigit_of_isStop hr
    have ht := takeRun_append (Text.ofNat_ne_nil n) (fun c => Text.isDigit_of_mem_ofNat) hd
    obtain ⟨c, t, hc, -⟩ := Text.exists_ofNat_cons n
    have hz : c ≠ '0' := fun e => Text.head?_ofNat hn (by rw [hc, e]; rfl)
    rw [hc] at ht ⊢
    rw [← ht, List.cons_append, takeWhole]
    exact fun _ e => hz (List.cons.inj e).1

theorem takeFraction_stopped (hr : Stopped r) : takeFraction r = some ([], r) := by
  cases r with
  | nil => rfl
  | cons c r =>
    rw [takeFraction]
    exact fun _ e => ne_of_isStop hr (by decide) (List.cons.inj e).1

theorem takeExponent_stopped (hr : Stopped r) : takeExponent r = some ([], r) := by
  cases r with
  | nil => rfl
  | cons c r =>
    have he : c ≠ 'e' := ne_of_isStop hr (by decide)
    have hE : c ≠ 'E' := ne_of_isStop hr (by decide)
    exact if_neg (not_or.2 ⟨he, hE⟩)

theorem takeNumber_ofNat (n : Nat) (hr : Stopped r) :
    takeNumber (Text.ofNat n ++ r) = some (Text.ofNat n, r) := by
  have hm : ∀ t, Text.ofNat n ++ r ≠ '-' :: t := by
    intro t ht
    obtain ⟨c, s, hc, hd⟩ := Text.exists_ofNat_cons n
    rw [hc] at ht
    rw [(List.cons.inj ht).1] at hd
    exact absurd hd (by decide)
  rw [takeNumber.eq_2 _ hm, takeWhole_ofNat n hr]
  simp [takeFraction_stopped hr, takeExponent_stopped hr]

theorem after?_eq_none {c d : Char} (h : c ≠ d) (s t : Text) :
    Text.after? (c :: s) (d :: t) = none := by
  simp [Text.after?, h]

theorem takeScalar_ofNat (n : Nat) (hr : Stopped r) :
    takeScalar (Text.ofNat n ++ r) = some (ofNat n, r) := by
  have ht := takeNumber_ofNat n hr
  obtain ⟨c, t, hc, hd⟩ := Text.exists_ofNat_cons n
  have hne : ∀ d : Char, Text.isDigit d = false → d ≠ c := by
    rintro d h rfl
    simp [hd] at h
  have hnull : Text.after? "null".toList (c :: t ++ r) = none :=
    after?_eq_none (hne 'n' (by decide)) "ull".toList _
  have htrue : Text.after? "true".toList (c :: t ++ r) = none :=
    after?_eq_none (hne 't' (by decide)) "rue".toList _
  have hfalse : Text.after? "false".toList (c :: t ++ r) = none :=
    after?_eq_none (hne 'f' (by decide)) "alse".toList _
  rw [ofNat]
  rw [hc] at ht ⊢
  rw [takeScalar, hnull, htrue, hfalse]
  exact congrArg (Option.map _) ht

end Scalars

theorem head_write {l : Layout} {j : Json} (h : Spelt j) (depth : Nat) :
    ∃ c t, j.write l depth = c :: t ∧ isStop c = false := by
  cases h with
  | null => exact ⟨'n', _, rfl, by decide⟩
  | bool b => cases b with
    | true => exact ⟨'t', _, rfl, by decide⟩
    | false => exact ⟨'f', _, rfl, by decide⟩
  | number n =>
    obtain ⟨c, t, hc, hd⟩ := Text.exists_ofNat_cons n
    refine ⟨c, t, hc, Bool.eq_false_iff.2 fun hs => ?_⟩
    simp [isDigit_of_isStop hs] at hd
  | string t => exact ⟨'"', _, rfl, by decide⟩
  | @array xs h => cases xs with
    | nil => exact ⟨'[', _, rfl, by decide⟩
    | cons x xs => exact ⟨'[', _, rfl, by decide⟩
  | @object ms hk h => cases ms with
    | nil => exact ⟨'\x7b', _, rfl, by decide⟩
    | cons m ms => exact ⟨'\x7b', _, rfl, by decide⟩

theorem takeValue_scalar {c : Char} (hg : isGap c = false) (h : c ∉ ['"', '[', '\x7b']) (n : Nat)
    (t : Text) : takeValue (n + 1) (c :: t) = takeScalar (c :: t) := by
  rw [takeValue, skipGap_cons hg]
  split <;> simp_all

theorem takeValue_digit {c : Char} (h : Text.isDigit c = true) (n : Nat) (t : Text) :
    takeValue (n + 1) (c :: t) = takeScalar (c :: t) := by
  have hne : ∀ d : Char, Text.isDigit d = false → c ≠ d := by
    rintro d hd rfl
    simp [hd] at h
  apply takeValue_scalar
  · simp [isGap, hne ' ' (by decide), hne '\n' (by decide), hne '\t' (by decide),
      hne '\r' (by decide)]
  · simp [hne '"' (by decide), hne '[' (by decide), hne '\x7b' (by decide)]

theorem takeValue_array {c : Char} {s t : Text} (ht : skipGap t = c :: s) (hc : c ≠ ']') (n : Nat) :
    takeValue (n + 1) ('[' :: t) = (takeItems n (c :: s)).map fun s => (.array s.1, s.2) := by
  rw [takeValue, skipGap_cons (by decide)]
  simp only [ht]
  split <;> simp_all

theorem takeValue_object {c : Char} {s t : Text} (ht : skipGap t = c :: s) (hc : c ≠ '\x7d')
    (n : Nat) :
    takeValue (n + 1) ('\x7b' :: t) = (takeMembers n (c :: s)).map fun s => (.object s.1, s.2) := by
  rw [takeValue, skipGap_cons (by decide)]
  simp only [ht]
  split <;> simp_all

def Taken (l : Layout) (j : Json) : Prop :=
  ∀ depth n r, (j.write l depth).length ≤ n → Stopped r →
    takeValue n (j.write l depth ++ r) = some (j, r)

theorem Taken.intro {l : Layout} {j : Json} (h : Spelt j)
    (ht : ∀ depth n r, (j.write l depth).length ≤ n + 1 → Stopped r →
      takeValue (n + 1) (j.write l depth ++ r) = some (j, r)) : Taken l j := by
  intro depth n r hn hr
  obtain ⟨c, t, hc, -⟩ := head_write (l := l) h depth
  cases n with
  | zero => simp [hc] at hn
  | succ n => exact ht depth n r hn hr

section Lists
variable {l : Layout} (hl : l.Blank)
include hl

theorem stopped_items (depth : Nat) (xs : List Json) (r : Text) :
    Stopped (writeItems l depth xs ++ r) := by
  cases xs with
  | nil =>
    simp only [writeItems, List.append_assoc, List.cons_append]
    exact .append (hl.line depth) (show isStop _ = true by decide)
  | cons x xs => simp [writeItems, Stopped, isStop]

theorem stopped_members (depth : Nat) (ms : List (Text × Json)) (r : Text) :
    Stopped (writeMembers l depth ms ++ r) := by
  cases ms with
  | nil =>
    simp only [writeMembers, List.append_assoc, List.cons_append]
    exact .append (hl.line depth) (show isStop _ = true by decide)
  | cons m ms => simp [writeMembers, Stopped, isStop]

/-- The induction is on the items behind the first one, which the next step makes the first. -/
theorem takeItems_write {x : Json} {xs : List Json} (hx : Taken l x) (h : ∀ y ∈ xs, Taken l y)
    (depth n : Nat) (hn : (x.write l (depth + 1) ++ writeItems l depth xs).length ≤ n) (r : Text) :
    takeItems n (x.write l (depth + 1) ++ (writeItems l depth xs ++ r)) = some (x :: xs, r) := by
  induction xs generalizing x n with
  | nil =>
    simp only [writeItems, List.length_append, List.length_cons, List.length_nil] at hn
    obtain ⟨n, rfl⟩ : ∃ m, n = m + 1 := ⟨n - 1, by omega⟩
    have ht := hx (depth + 1) n (writeItems l depth [] ++ r) (by omega)
      (stopped_items hl depth [] r)
    have hs : skipGap (writeItems l depth [] ++ r) = ']' :: r := by
      rw [writeItems, List.append_assoc, skipGap_append (hl.line depth)]
      exact skipGap_cons (by decide) r
    rw [takeItems, ht]
    simp only [hs]
  | cons y ys ih =>
    simp only [writeItems, List.length_append, List.length_cons] at hn
    obtain ⟨n, rfl⟩ : ∃ m, n = m + 1 := ⟨n - 1, by omega⟩
    have ht := hx (depth + 1) n (writeItems l depth (y :: ys) ++ r) (by omega)
      (stopped_items hl depth (y :: ys) r)
    have hs : skipGap (writeItems l depth (y :: ys) ++ r) =
        ',' :: (l.line (depth + 1) ++ (y.write l (depth + 1) ++ (writeItems l depth ys ++ r))) := by
      simp only [writeItems, List.cons_append, List.append_assoc]
      exact skipGap_cons (by decide) _
    have hr := ih (h y (by simp)) (fun z hz => h z (by simp [hz])) n
      (by simp only [List.length_append]; omega)
    rw [takeItems, ht]
    simp only [hs, takeItems_append (hl.line (depth + 1)), hr, Option.map_some]

/-- One member is taken off, and the character behind it says if others come. -/
theorem takeMembers_member {k : Text} (hk : ∃ t, k = escape t) {x : Json} (hx : Taken l x)
    {depth n : Nat} (hn : (x.write l depth).length ≤ n) {r r' : Text} (hr : Stopped r) {c : Char}
    (hs : skipGap r = c :: r') :
    takeMembers (n + 1) ('"' :: k ++ '"' :: ':' :: l.gap ++ (x.write l depth ++ r)) =
      if c = ',' then (takeMembers n r').map fun s => ((k, x) :: s.1, s.2)
      else if c = '\x7d' then some ([(k, x)], r')
      else none := by
  obtain ⟨t, rfl⟩ := hk
  have hq := takeQuoted_escape t (':' :: l.gap ++ (x.write l depth ++ r))
  have ht := hx depth n r hn hr
  simp only [List.cons_append, List.append_assoc] at hq ⊢
  rw [takeMembers, skipGap_cons (by decide)]
  simp only [hq, skipGap_cons (c := ':') (by decide), takeValue_append hl.gap, ht, hs]
  split
  · next h =>
    cases h
    rfl
  · next h =>
    cases h
    rfl
  · next hc hb => rw [if_neg fun e => hc r' (by rw [e]), if_neg fun e => hb r' (by rw [e])]

theorem takeMembers_write {m : Text × Json} {ms : List (Text × Json)}
    (hm : (∃ t, m.1 = escape t) ∧ Taken l m.2)
    (h : ∀ m ∈ ms, (∃ t, m.1 = escape t) ∧ Taken l m.2) (depth n : Nat)
    (hn : (m.2.write l (depth + 1) ++ writeMembers l depth ms).length ≤ n) (r : Text) :
    takeMembers n ('"' :: m.1 ++ '"' :: ':' :: l.gap ++
      (m.2.write l (depth + 1) ++ (writeMembers l depth ms ++ r))) = some (m :: ms, r) := by
  induction ms generalizing m n with
  | nil =>
    simp only [writeMembers, List.length_append, List.length_cons, List.length_nil] at hn
    obtain ⟨n, rfl⟩ : ∃ m, n = m + 1 := ⟨n - 1, by omega⟩
    have hs : skipGap (writeMembers l depth [] ++ r) = '\x7d' :: r := by
      rw [writeMembers, List.append_assoc, skipGap_append (hl.line depth)]
      exact skipGap_cons (by decide) r
    rw [takeMembers_member hl hm.1 hm.2 (by omega) (stopped_members hl depth [] r) hs]
    rfl
  | cons e es ih =>
    obtain ⟨k, y⟩ := e
    simp only [writeMembers, List.length_append, List.length_cons] at hn
    obtain ⟨n, rfl⟩ : ∃ m, n = m + 1 := ⟨n - 1, by omega⟩
    have hs : skipGap (writeMembers l depth ((k, y) :: es) ++ r) =
        ',' :: (l.line (depth + 1) ++ ('"' :: k ++ '"' :: ':' :: l.gap ++
          (y.write l (depth + 1) ++ (writeMembers l depth es ++ r)))) := by
      simp only [writeMembers, List.cons_append, List.append_assoc]
      exact skipGap_cons (by decide) _
    have hr := ih (h (k, y) (by simp)) (fun z hz => h z (by simp [hz])) n
      (by simp only [List.length_append]; omega)
    rw [takeMembers_member hl hm.1 hm.2 (by omega) (stopped_members hl depth ((k, y) :: es) r) hs,
      if_pos rfl, takeMembers_append (hl.line (depth + 1)), hr]
    rfl

/-- One case for each form of value; those inside an array or object are taken by induction. -/
theorem takeValue_write {j : Json} (h : Spelt j) : Taken l j := by
  induction h with
  | null => exact .intro .null fun _ n _ _ _ => takeValue_scalar (by decide) (by decide) n _
  | bool b =>
    refine .intro (.bool b) fun _ n _ _ _ => ?_
    cases b with
    | true => exact takeValue_scalar (by decide) (by decide) n _
    | false => exact takeValue_scalar (by decide) (by decide) n _
  | number k =>
    refine .intro (.number k) fun depth n r _ hr => ?_
    have hs := takeScalar_ofNat k hr
    obtain ⟨c, t, hc, hd⟩ := Text.exists_ofNat_cons k
    rw [hc] at hs
    simp only [ofNat, write, hc, List.cons_append] at hs ⊢
    rw [takeValue_digit hd, hs]
  | string t =>
    refine .intro (.string t) fun _ n r _ _ => ?_
    have hq := takeQuoted_escape t r
    simp only [ofText, write, List.cons_append, List.append_assoc, List.nil_append]
    rw [takeValue, skipGap_cons (by decide)]
    simp only [hq, Option.map_some]
  | @array xs h ih =>
    refine .intro (.array h) fun depth n r hn _ => ?_
    cases xs with
    | nil => rfl
    | cons x xs =>
      obtain ⟨hx, hxs⟩ := List.forall_mem_cons.1 ih
      obtain ⟨c, t, hc, hs⟩ := head_write (l := l) (h x (by simp)) (depth + 1)
      simp only [write, List.length_cons, List.length_append] at hn
      have hi := takeItems_write hl hx hxs depth n
        (by simp only [List.length_append]; omega) r
      have hg : isGap c = false ∧ c ≠ ']' := by
        simp only [isStop, Bool.or_eq_false_iff, decide_eq_false_iff_not] at hs
        exact ⟨hs.1.1.1, hs.1.2⟩
      simp only [write, hc, List.cons_append, List.append_assoc] at hi ⊢
      rw [takeValue_array ((skipGap_append (hl.line _) _).trans (skipGap_cons hg.1 _)) hg.2, hi]
      rfl
  | @object ms hk h ih =>
    refine .intro (.object hk h) fun depth n r hn _ => ?_
    cases ms with
    | nil => rfl
    | cons m ms =>
      have hm : ∀ e ∈ m :: ms, (∃ t, e.1 = escape t) ∧ Taken l e.2 := fun e he =>
        ⟨hk e he, ih e he⟩
      obtain ⟨hm, hms⟩ := List.forall_mem_cons.1 hm
      simp only [write, List.length_cons, List.length_append] at hn
      have hi := takeMembers_write hl hm hms depth n
        (by simp only [List.length_append]; omega) r
      simp only [write, List.cons_append, List.append_assoc] at hi ⊢
      rw [takeValue_object ((skipGap_append (hl.line _) _).trans (skipGap_cons (by decide) _))
        (by decide), hi]
      rfl

/-- Read as a whole, with or without blanks behind it, a written document is what was written. -/
theorem read_write {j : Json} (h : Spelt j) (depth : Nat) {g : Text} (hg : g.all isGap = true) :
    read (j.write l depth ++ g) = some j := by
  have ht := takeValue_write hl h depth (2 * (j.write l depth ++ g).length + 2) g
    (by simp only [List.length_append]; omega) (by simpa using Stopped.append (r := []) hg rfl)
  rw [read, ht]
  exact if_pos hg

end Lists
end Triage.Json
