import Triage.Proofs.Toml.Growth
import Triage.Proofs.Toml.Lines

set_option autoImplicit false

/-!
Lines put into a document. A line that gives a new key its value may stand wherever a line of the
document begins and lines go to the key's table, and a table with a new name may stand behind the
document: the document has the member more and is the same otherwise (`read_inserted`,
`read_headed`).
-/

namespace Triage.Toml

section Front
variable {m n : Nat} {t u w r b : Text} {l l₁ l₂ : List Statement}

theorem statements_mono (h : statements n t = some l) (hm : n ≤ m) : statements m t = some l := by
  induction n generalizing m t l with
  | zero => cases h
  | succ n ih =>
    obtain ⟨m, rfl⟩ := Nat.exists_eq_add_one.2 (Nat.zero_lt_of_lt hm)
    refine statements_succ_iff.2 ((statements_succ_iff.1 h).imp_right ?_)
    rintro ⟨l₁, r, l₂, hturn, hr, hl⟩
    exact ⟨l₁, r, l₂, hturn, ih hr (Nat.le_of_succ_le_succ hm), hl⟩

def Front (u : Text) (l : List Statement) : Prop :=
  ∃ j ≤ u.length, ∀ m s, statements (m + j) (u ++ s) = (statements m s).map (l ++ ·)

theorem Front.nil : Front [] [] :=
  ⟨0, Nat.le_refl 0, fun m s => (congrFun Option.map_id (statements m s)).symm⟩

theorem Front.entry (e : Entry) : Front e.text [e.statement] := by
  refine ⟨1, ?_, fun m s => ?_⟩
  · simp [Entry.text]
    omega
  · obtain ⟨c, k, hk, hc⟩ := e.bare.cons
    have hs : skipGap (e.text ++ s) = e.text ++ s := by
      simp only [Entry.text, hk, List.cons_append]
      exact List.dropWhile_cons_of_neg (by rw [isGap_of_isBare hc]; decide)
    have hturn : Turn (e.text ++ s) [e.statement] s :=
      .statement (by rw [hs]; exact takeStatement_entry e s)
    exact hturn.statements_eq m

inductive LineEnd : Text → Prop
  | newline : LineEnd ['\n']
  | crlf : LineEnd ['\r', '\n']

theorem LineEnd.breaks (hb : LineEnd b) (s : Text) : Breaks (b ++ s) := by
  cases hb <;> constructor

theorem LineEnd.turn (hb : LineEnd b) (s : Text) : Turn (b ++ s) [] s := by
  have hturn : Turn (b ++ s) [] (dropLineEnd (b ++ s)) :=
    .blank (skipGap_more (hb.breaks s) []) (hb.breaks s)
  cases hb <;> exact hturn

theorem Front.lineEnd (hb : LineEnd b) (h : statements (u.length + 1) u = some l) :
    Front (u ++ b) l := by
  obtain ⟨j, hj, hm⟩ := statements_more h
  have hlen : 0 < b.length := by cases hb <;> decide
  refine ⟨j + 1, by rw [List.length_append]; omega, fun m s => ?_⟩
  rw [List.append_assoc, Nat.add_comm j 1, ← Nat.add_assoc, hm (hb.breaks s),
    (hb.turn s).statements_eq, Option.map_map]
  rfl

theorem Front.statements_eq (h : Front u l) :
    statements ((u ++ []).length + 1) (u ++ []) = some l := by
  obtain ⟨j, hj, hm⟩ := h
  have hn : (u ++ []).length + 1 = (u.length - j + 1) + j := by
    rw [List.append_nil]
    omega
  rw [hn, hm]
  simp [statements, skipGap]

/-- Whole lines come between the statements in front of them and those behind. -/
theorem Front.insert (hu : Front u l₁) (hw : Front w l₂)
    (h : statements ((u ++ r).length + 1) (u ++ r) = some l) : ∃ l₃, l = l₁ ++ l₃ ∧
      statements ((u ++ (w ++ r)).length + 1) (u ++ (w ++ r)) = some (l₁ ++ (l₂ ++ l₃)) := by
  obtain ⟨j, hj, hm⟩ := hu
  obtain ⟨i, hi, hm'⟩ := hw
  have hn : (u ++ r).length + 1 = (u.length + r.length + 1 - j) + j := by
    rw [List.length_append]
    omega
  have hn' : (u ++ (w ++ r)).length + 1 =
      (u.length + r.length + 1 - j + (w.length - i)) + i + j := by
    simp only [List.length_append]
    omega
  rw [hn, hm] at h
  obtain ⟨l₃, hl, rfl⟩ := Option.map_eq_some_iff.1 h
  refine ⟨l₃, rfl, ?_⟩
  rw [hn', hm, hm', statements_mono hl (Nat.le_add_right _ _)]
  rfl

end Front

section Texts
variable {t t' u r b k : Text} {e : Entry} {l l₁ : List Statement} {p q : Progress}
  {ms : Members}

def statementsOf (t : Text) : Option (List Statement) :=
  statements ((dropMark t).length + 1) (dropMark t)

def progress (t : Text) : Option Progress :=
  (statementsOf t).bind fun l => l.foldlM Progress.step .start

theorem read_eq (t : Text) :
    read t = (progress t).map fun p => .table .header p.root.members := by
  have hof (l : List Statement) : ofStatements l =
      (l.foldlM Progress.step .start).map fun p => .table .header p.root.members :=
    Option.map_eq_bind.symm
  rw [progress, Option.map_bind]
  exact congrArg (statementsOf t).bind (funext hof)

/-- A text with a line put in, where a line begins: behind the mark of the byte order or at the very
front, behind a line end, or behind the last line, which needs a line end then. The text on the left
is what stands before. -/
inductive Inserted (line : Text) : Text → Text → Text → Prop
  | top {u r : Text} (h : dropMark (u ++ r) = r) : Inserted line u (u ++ r) (u ++ (line ++ r))
  | below {u b r : Text} (hb : LineEnd b) :
      Inserted line u (u ++ (b ++ r)) (u ++ (b ++ (line ++ r)))
  | last {u b : Text} (hb : LineEnd b) : Inserted line u u (u ++ (b ++ line))

theorem dropMark_append {s : Text} (hs : dropMark s = s) (u : Text) :
    dropMark (u ++ s) = dropMark u ++ s := by
  cases u with
  | nil => exact hs
  | cons c u =>
    by_cases hc : c = '\uFEFF'
    · subst hc
      rfl
    · rw [List.cons_append, dropMark, dropMark]
      · rfl
      all_goals rintro _ ⟨⟩; exact hc rfl

theorem dropMark_entry (e : Entry) (r : Text) : dropMark (e.text ++ r) = e.text ++ r := by
  obtain ⟨c, k, hk, hc⟩ := e.bare.cons
  have hne : c ≠ '\uFEFF' := isBare_ne hc (by decide)
  rw [dropMark]
  simp [Entry.text, hk, hne]

theorem LineEnd.dropMark (hb : LineEnd b) (r : Text) : Toml.dropMark (b ++ r) = b ++ r := by
  cases hb <;> rfl

theorem dropMark_top (h : dropMark (u ++ r) = r) : dropMark u = [] := by
  cases u with
  | nil => rfl
  | cons c u =>
    by_cases hc : c = '\uFEFF'
    · subst hc
      exact List.append_left_eq_self.1 h
    · rw [List.cons_append, dropMark] at h
      · cases List.append_left_eq_self.1 (by rwa [List.cons_append] : (c :: u) ++ r = r)
      · rintro _ ⟨⟩
        exact hc rfl

theorem statementsOf_inserted (hi : Inserted e.text u t t') (hu : statementsOf u = some l₁)
    (ht : statementsOf t = some l) :
    ∃ l₃, l = l₁ ++ l₃ ∧ statementsOf t' = some (l₁ ++ e.statement :: l₃) := by
  unfold statementsOf at hu ht ⊢
  cases hi with
  | top h =>
    have hempty := dropMark_top h
    rw [hempty] at hu
    obtain rfl := statements_nil hu
    rw [h] at ht
    rw [dropMark_append (dropMark_entry e _), hempty]
    exact Front.nil.insert (.entry e) ht
  | below hb =>
    rw [dropMark_append (hb.dropMark _), ← List.append_assoc] at ht ⊢
    exact (Front.lineEnd hb hu).insert (.entry e) ht
  | last hb =>
    obtain rfl := Option.some.inj (hu.symm.trans ht)
    have hfront := Front.lineEnd hb hu
    obtain ⟨l₃, hl, h⟩ := hfront.insert (r := []) (.entry e) (hfront.statements_eq)
    obtain rfl := List.append_right_eq_self.1 hl.symm
    have hmark := dropMark_append (hb.dropMark e.text) t
    rw [hmark, ← List.append_assoc]
    exact ⟨[], hl, by simpa using h⟩

theorem read_eq_some_iff {d : Toml} : read t = some d ↔
    ∃ p, progress t = some p ∧ .table .header p.root.members = d := by
  rw [read_eq, Option.map_eq_some_iff]

theorem progress_eq_some_iff : progress t = some p ↔
    ∃ l, statementsOf t = some l ∧ l.foldlM Progress.step .start = some p :=
  Option.bind_eq_some_iff

theorem enters_progress (h : progress t = some p) : Enters p.current p.root.members := by
  obtain ⟨l, -, hp⟩ := progress_eq_some_iff.1 h
  exact enters_run (p := .start) trivial hp

/-- A line puts its member into the table that lines go to where it stands, the document's own or
one with a name of the document. -/
theorem read_inserted (hi : Inserted e.text u t t') (hu : progress u = some p)
    (ht : read t = some (.table .header ms))
    (hpath : p.current = [] ∨ ∃ j, p.current = [j] ∧ ¬ Lists j ms)
    (hno : ¬ Has e.key p.current ms) :
    ∃ ms', read t' = some (.table .header ms') ∧ Grown e.key e.value p.current ms ms' := by
  obtain ⟨q, hq, hms⟩ := read_eq_some_iff.1 ht
  cases hms
  have henters := enters_progress hu
  obtain ⟨l₁, hu, hp⟩ := progress_eq_some_iff.1 hu
  obtain ⟨l, ht, hq⟩ := progress_eq_some_iff.1 hq
  obtain ⟨l₃, rfl, ht'⟩ := statementsOf_inserted hi hu ht
  obtain ⟨f, current, hf, hrun⟩ := steady_run p.current l₃
  rw [List.foldlM_append, hp] at hq
  obtain ⟨r, hr, rfl⟩ := Option.map_eq_some_iff.1 ((hrun p.root).symm.trans hq)
  have hleads : Leads p.current p.root.members := by
    rcases hpath with hc | ⟨j, hc, hlists⟩
    · rw [hc]
      trivial
    · rw [hc] at henters ⊢
      rcases henters with ⟨o, m, hm, ho, -⟩ | hj
      · exact ⟨o, m, hm, ho, trivial⟩
      · exact absurd (hf.lists hr hj) hlists
  obtain ⟨ms₁, hassign, hgrown⟩ :=
    exists_enter_assign (v := e.value) hleads fun hk => hno (hf.keeps hr hk)
  have hstep : p.step e.statement = some ⟨⟨p.root.origin, ms₁⟩, p.current⟩ := by
    simp only [Progress.step, Entry.statement, hassign]
    rfl
  obtain ⟨ms₂, hms₂, hgrown₂⟩ := hf.grows hr hgrown hno
  have hq' : (l₁ ++ e.statement :: l₃).foldlM Progress.step .start =
      some ⟨⟨r.origin, ms₂⟩, current⟩ := by
    rw [List.foldlM_append, hp, Option.bind_eq_bind, Option.bind_some, List.foldlM_cons, hstep,
      Option.bind_eq_bind, Option.bind_some, hrun, hms₂]
    rfl
  exact ⟨ms₂, read_eq_some_iff.2 ⟨_, progress_eq_some_iff.2 ⟨_, ht', hq'⟩, rfl⟩, hgrown₂⟩

theorem not_mem_keys (h : member? ms k = none) : k ∉ keys ms := by
  intro hk
  obtain ⟨m, hm, rfl⟩ := List.mem_map.1 hk
  have hall := List.find?_eq_none.1 (Option.map_eq_none_iff.1 h) m hm
  exact hall (decide_eq_true rfl)

theorem statementsOf_headed (s : Headed) (h : statementsOf t = some l) :
    statementsOf (t ++ s.text) = some (l ++ s.statements) := by
  unfold statementsOf at h ⊢
  obtain ⟨j, hj, hm⟩ := statements_more h
  have hbreaks : Breaks s.text := .newline _
  have hn : (dropMark t ++ s.text).length + 1 =
      ((dropMark t).length - j + s.text.length + 1) + j := by
    rw [List.length_append]
    omega
  have hs := Yields.headed s .nil
  rw [List.append_nil, List.append_nil] at hs
  rw [dropMark_append rfl, hn, hm hbreaks, hs _ (by omega)]
  rfl

theorem read_headed (s : Headed) (ht : read t = some (.table .header ms))
    (h : member? ms s.name = none) :
    read (t ++ s.text) = some (.table .header (ms ++ [s.member])) := by
  obtain ⟨q, hq, hms⟩ := read_eq_some_iff.1 ht
  cases hms
  obtain ⟨l, hl, hq⟩ := progress_eq_some_iff.1 hq
  obtain ⟨f, current, hf, hrun⟩ := steady_run [] l
  obtain ⟨r, hr, rfl⟩ := Option.map_eq_some_iff.1 ((hrun _).symm.trans hq)
  have horigin : r = ⟨.header, r.members⟩ := congrArg (Draft.mk · r.members) (hf.origin hr)
  have hq' : (l ++ s.statements).foldlM Progress.step .start =
      some ⟨⟨.header, r.members ++ [s.member]⟩, [s.name]⟩ := by
    rw [List.foldlM_append, hq, Option.bind_eq_bind, Option.bind_some]
    exact foldlM_headed s horigin (not_mem_keys h)
  exact read_eq_some_iff.2
    ⟨_, progress_eq_some_iff.2 ⟨_, statementsOf_headed s hl, hq'⟩, rfl⟩

theorem Stands.braces : Stands ['\x7b', '\x7d'] (.table .inline []) where
  head := ⟨'\x7b', rfl, by decide⟩
  take {n} r hn := by
    obtain ⟨n, rfl⟩ := Nat.exists_eq_add_one.2 (Nat.zero_lt_of_lt hn)
    rfl

def Entry.ofBraces (key : Text) (h : Bare key) : Entry := ⟨key, _, _, h, .braces⟩

end Texts

end Triage.Toml
