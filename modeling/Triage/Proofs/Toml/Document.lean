import Triage.Proofs.Toml.Reader

set_option autoImplicit false

/-!
Documents of lines that give keys their values, the first of them for the document itself, the
others under the headings of tables. No name is given twice. Such a document is read as the table
that it writes down: its lines are the statements one by one, and every statement adds its member.
-/

namespace Triage.Toml
open Settings

structure Stands (s : Text) (v : Toml) : Prop where
  head : ∃ c ∈ s.head?, isGap c = false
  take : ∀ {n : Nat} (r : Text), s.length < n →
    takeValue n limit (s ++ '\n' :: r) = some (v, '\n' :: r)

theorem Stands.text (t : Text) : Stands (quote t) (.string t) where
  head := by
    obtain ⟨q, s, hs, rfl | rfl⟩ := quote_cons t <;> exact ⟨_, by rw [hs]; rfl, by decide⟩
  take r hn := takeValue_quote t (Nat.zero_lt_of_lt hn) (by simp)

theorem Stands.flag (b : Bool) : Stands (flagText b) (.boolean b) where
  head := by cases b <;> exact ⟨_, rfl, by decide⟩
  take r hn := takeValue_flag b (Nat.zero_lt_of_lt hn) r

theorem Stands.texts (ts : List Text) : Stands (listText ts) (.array (ts.map .string)) where
  head := by
    match ts with
    | [] | [_] | _ :: _ :: _ => exact ⟨'[', rfl, by decide⟩
  take r hn := takeValue_listText ts hn _

structure Entry where
  key : Text
  spelled : Text
  value : Toml
  bare : Bare key
  stands : Stands spelled value

def Entry.ofText (key : Text) (h : Bare key) (t : Text) : Entry := ⟨key, _, _, h, .text t⟩

def Entry.ofFlag (key : Text) (h : Bare key) (b : Bool) : Entry := ⟨key, _, _, h, .flag b⟩

def Entry.ofTexts (key : Text) (h : Bare key) (ts : List Text) : Entry := ⟨key, _, _, h, .texts ts⟩

structure Headed where
  name : Text
  entries : List Entry
  bare : Bare name
  nodup : (entries.map Entry.key).Nodup

structure Document where
  entries : List Entry
  tables : List Headed
  nodup : (entries.map Entry.key ++ tables.map Headed.name).Nodup

section Lines
variable {k r : Text} {l : List Statement}

def Entry.text (e : Entry) : Text := e.key ++ " = ".toList ++ e.spelled ++ ['\n']

def Entry.statement (e : Entry) : Statement := .assignment ⟨[], e.key⟩ e.value

theorem skipGap_stands {s : Text} {v : Toml} (h : Stands s v) (r : Text) :
    skipGap (' ' :: (s ++ r)) = s ++ r := by
  obtain ⟨c, hc, hg⟩ := h.head
  obtain ⟨s', rfl⟩ := List.head?_eq_some_iff.1 hc
  have hs : skipGap (c :: (s' ++ r)) = c :: (s' ++ r) :=
    List.dropWhile_cons_of_neg (Bool.not_eq_true _ ▸ hg)
  exact hs

theorem takeStatement_entry (e : Entry) (r : Text) :
    takeStatement (e.text ++ r) = some (e.statement, r) := by
  have ht : e.text ++ r = e.key ++ ' ' :: '=' :: ' ' :: (e.spelled ++ '\n' :: r) := by
    simp [Entry.text]
  have hk : takeKey limit (e.key ++ ' ' :: '=' :: ' ' :: (e.spelled ++ '\n' :: r)) =
      some (⟨[], e.key⟩, '=' :: ' ' :: (e.spelled ++ '\n' :: r)) :=
    takeKey_bare e.bare rfl rfl (by simp)
  have hv := e.stands.take (n := 2 * (' ' :: (e.spelled ++ '\n' :: r)).length + 2) r
    (by simp; omega)
  obtain ⟨c, k, hc, hb⟩ := e.bare.cons
  have hne : c ≠ '[' := isBare_ne hb (by decide)
  rw [ht, takeStatement]
  · rw [hk]
    change (takeValue (2 * (' ' :: (e.spelled ++ '\n' :: r)).length + 2) limit
      (skipGap (' ' :: (e.spelled ++ '\n' :: r))) >>= _) = _
    rw [skipGap_stands e.stands, hv]
    rfl
  all_goals simp [hc, hne]

theorem takeStatement_header (hk : Bare k) (r : Text) :
    takeStatement ('[' :: k ++ ']' :: '\n' :: r) = some (.header ⟨[], k⟩, r) := by
  have ht : takeKey limit (k ++ ']' :: '\n' :: r) = some (⟨[], k⟩, ']' :: '\n' :: r) :=
    takeKey_bare hk rfl rfl (by simp)
  obtain ⟨c, k, rfl, hb⟩ := hk.cons
  have hne : c ≠ '[' := isBare_ne hb (by decide)
  rw [List.cons_append, takeStatement]
  · rw [ht]
    rfl
  · simp [hne]

/-- A text has the statements, whatever number of steps above its length is given. -/
def Yields (t : Text) (l : List Statement) : Prop :=
  ∀ n, t.length < n → statements n t = some l

theorem Yields.nil : Yields [] [] := by
  intro n hn
  obtain ⟨n, rfl⟩ := Nat.exists_eq_add_one.2 hn
  rfl

theorem Yields.blank (h : Yields r l) : Yields ('\n' :: r) l := by
  intro n hn
  obtain ⟨n, rfl⟩ := Nat.exists_eq_add_one.2 (Nat.zero_lt_of_lt hn)
  exact h n (Nat.lt_of_succ_lt_succ hn)

theorem Yields.statement {t : Text} {s : Statement} (ht : takeStatement (t ++ r) = some (s, r))
    (hc : ∃ c ∈ t.head?, isGap c = false ∧ c ≠ '\n' ∧ c ≠ '\r' ∧ c ≠ '#') (h : Yields r l) :
    Yields (t ++ r) (s :: l) := by
  intro n hn
  obtain ⟨c, hc, hg, hline, hreturn, hcomment⟩ := hc
  obtain ⟨t, rfl⟩ := List.head?_eq_some_iff.1 hc
  obtain ⟨n, rfl⟩ := Nat.exists_eq_add_one.2 (Nat.zero_lt_of_lt hn)
  have hr : statements n r = some l := h n (by simp at hn; omega)
  have hs : skipGap (c :: t ++ r) = c :: t ++ r :=
    List.dropWhile_cons_of_neg (Bool.not_eq_true _ ▸ hg)
  rw [List.cons_append] at ht hs ⊢
  simp [statements, hs, ht, hr, hline, hreturn, hcomment]

theorem Yields.entry (e : Entry) (h : Yields r l) : Yields (e.text ++ r) (e.statement :: l) := by
  obtain ⟨c, k, hk, hc⟩ := e.bare.cons
  have hne {d : Char} (hd : isBare d = false) : c ≠ d := isBare_ne hc hd
  exact h.statement (takeStatement_entry e r)
    ⟨c, by simp [Entry.text, hk], isGap_of_isBare hc, hne rfl, hne rfl, hne rfl⟩

theorem Yields.entries (es : List Entry) (h : Yields r l) :
    Yields (es.flatMap Entry.text ++ r) (es.map Entry.statement ++ l) := by
  induction es with
  | nil => exact h
  | cons e es ih =>
    rw [List.flatMap_cons, List.append_assoc]
    exact ih.entry e

def Headed.text (s : Headed) : Text :=
  "\n[".toList ++ s.name ++ "]\n".toList ++ s.entries.flatMap Entry.text

def Headed.statements (s : Headed) : List Statement :=
  .header ⟨[], s.name⟩ :: s.entries.map Entry.statement

theorem Yields.headed (s : Headed) (h : Yields r l) : Yields (s.text ++ r) (s.statements ++ l) := by
  have hb := h.entries s.entries
  have ht := takeStatement_header s.bare (s.entries.flatMap Entry.text ++ r)
  have hs := (hb.statement (t := '[' :: s.name ++ "]\n".toList) (by simpa using ht)
    ⟨'[', rfl, by decide⟩).blank
  simpa [Headed.text, Headed.statements] using hs

end Lines

def Document.text (d : Document) : Text :=
  d.entries.flatMap Entry.text ++ d.tables.flatMap Headed.text

def Document.statements (d : Document) : List Statement :=
  d.entries.map Entry.statement ++ d.tables.flatMap Headed.statements

theorem Document.yields (d : Document) : Yields d.text d.statements := by
  refine Yields.entries d.entries ?_
  induction d.tables with
  | nil => exact Yields.nil
  | cons s ss ih => exact ih.headed s

section Members
variable {ms : Members} {k : Text} {v v' : Toml}

def keys (ms : Members) : List Text := ms.map (·.1)

theorem member?_of_not_mem (h : k ∉ keys ms) : member? ms k = none := by
  simp only [member?, Option.map_eq_none_iff, List.find?_eq_none, decide_eq_true_eq]
  exact fun m hm e => h (List.mem_map.2 ⟨m, hm, e⟩)

theorem member?_concat (h : k ∉ keys ms) (v : Toml) : member? (ms ++ [(k, v)]) k = some v := by
  have hm := Option.map_eq_none_iff.1 (member?_of_not_mem h)
  simp [member?, List.find?_append, hm]

theorem replace_concat (h : k ∉ keys ms) (v v' : Toml) :
    replace (ms ++ [(k, v)]) k v' = ms ++ [(k, v')] := by
  have hm : ms.map (fun m => if m.1 = k then (k, v') else m) = ms := by
    refine (List.map_congr_left fun m hm => ?_).trans (List.map_id ms)
    exact if_neg fun e => h (List.mem_map.2 ⟨m, hm, e⟩)
  simp [replace, hm]

theorem assign_fresh (d : Draft) (h : k ∉ keys d.members) (v : Toml) :
    assign [] k v d = some { d with members := d.members ++ [(k, v)] } := by
  simp [assign, enter, member?_of_not_mem h]

theorem head_fresh (d : Draft) (h : k ∉ keys d.members) :
    head [] k d = some { d with members := d.members ++ [(k, .table .header [])] } := by
  simp [head, enter, member?_of_not_mem h]

end Members

def Entry.member (e : Entry) : Text × Toml := (e.key, e.value)

def Headed.member (s : Headed) : Text × Toml :=
  (s.name, .table .header (s.entries.map Entry.member))

def Document.table (d : Document) : Toml :=
  .table .header (d.entries.map Entry.member ++ d.tables.map Headed.member)

theorem foldlM_members {α : Type} {P : Members → Progress → Prop} {g : α → List Statement}
    {m : α → Text × Toml}
    (h : ∀ {ms p} (a : α), P ms p → (m a).1 ∉ keys ms →
      ∃ p', (g a).foldlM Progress.step p = some p' ∧ P (ms ++ [m a]) p')
    (l : List α) (ms : Members) {p : Progress} (hp : P ms p) (hn : (keys (ms ++ l.map m)).Nodup) :
    ∃ p', (l.flatMap g).foldlM Progress.step p = some p' ∧ P (ms ++ l.map m) p' := by
  induction l generalizing ms p with
  | nil => exact ⟨p, rfl, by simpa using hp⟩
  | cons a l ih =>
    rw [List.map_cons, List.append_cons] at hn ⊢
    have hk : (m a).1 ∉ keys ms := by
      have hn' := (List.nodup_append.1 (by simpa [keys] using hn)).2.2
      exact fun hm => hn' _ hm _ (by simp) rfl
    obtain ⟨p₁, h₁, hp₁⟩ := h a hp hk
    obtain ⟨p', h', hp'⟩ := ih _ hp₁ hn
    refine ⟨p', ?_, hp'⟩
    rw [List.flatMap_cons, List.foldlM_append, h₁]
    exact h'

theorem foldlM_entries {f : Members → Progress}
    (h : ∀ ms (e : Entry), e.key ∉ keys ms →
      (f ms).step e.statement = some (f (ms ++ [e.member])))
    (es : List Entry) (hn : (es.map Entry.key).Nodup) :
    (es.map Entry.statement).foldlM Progress.step (f []) = some (f (es.map Entry.member)) := by
  obtain ⟨p, hp, rfl⟩ := foldlM_members (P := fun ms p => p = f ms) (g := fun e => [e.statement])
    (m := Entry.member) (fun {ms p} e hp hk => ⟨_, by simp [hp, h ms e hk], rfl⟩) es [] rfl
    (by simpa [keys, Entry.member, Function.comp_def] using hn)
  rw [List.map_eq_flatMap]
  exact hp

theorem step_root (ms : Members) (e : Entry) (h : e.key ∉ keys ms) :
    Progress.step ⟨⟨.header, ms⟩, []⟩ e.statement = some ⟨⟨.header, ms ++ [e.member]⟩, []⟩ := by
  simp [Progress.step, Entry.statement, enter, assign_fresh ⟨.header, ms⟩ h, Entry.member]

theorem step_headed {pre : Members} {name : Text} (hp : name ∉ keys pre) (ms : Members) (e : Entry)
    (h : e.key ∉ keys ms) :
    Progress.step ⟨⟨.header, pre ++ [(name, .table .header ms)]⟩, [name]⟩ e.statement =
      some ⟨⟨.header, pre ++ [(name, .table .header (ms ++ [e.member]))]⟩, [name]⟩ := by
  simp [Progress.step, Entry.statement, enter, assign_fresh ⟨.header, ms⟩ h, Entry.member,
    member?_concat hp, replace_concat hp]

theorem foldlM_headed (s : Headed) {ms : Members} {p : Progress} (hp : p.root = ⟨.header, ms⟩)
    (h : s.name ∉ keys ms) :
    s.statements.foldlM Progress.step p = some ⟨⟨.header, ms ++ [s.member]⟩, [s.name]⟩ := by
  have hs : p.step (.header ⟨[], s.name⟩) =
      some ⟨⟨.header, ms ++ [(s.name, .table .header [])]⟩, [s.name]⟩ := by
    simp [Progress.step, hp, head_fresh ⟨.header, ms⟩ h, Key.parts]
  rw [Headed.statements, List.foldlM_cons, hs]
  exact foldlM_entries (step_headed h) s.entries s.nodup

theorem Document.ofStatements_statements (d : Document) :
    ofStatements d.statements = some d.table := by
  have he := foldlM_entries (f := fun ms => ⟨⟨.header, ms⟩, []⟩) step_root d.entries
    (List.nodup_append.1 d.nodup).1
  obtain ⟨p, hp, hroot⟩ := foldlM_members (P := fun ms p => p.root = ⟨.header, ms⟩)
    (g := Headed.statements) (m := Headed.member) (p := ⟨⟨.header, d.entries.map Entry.member⟩, []⟩)
    (fun s hp hk => ⟨_, foldlM_headed s hp hk, rfl⟩) d.tables (d.entries.map Entry.member) rfl
    (by simpa [keys, Entry.member, Headed.member, Function.comp_def] using d.nodup)
  have hs : d.statements.foldlM Progress.step .start = some p := by
    rw [Document.statements, List.foldlM_append]
    exact (congrArg (· >>= _) he).trans hp
  simp [ofStatements, hs, hroot, Document.table]

theorem Document.dropMark_text (d : Document) : dropMark d.text = d.text := by
  rw [dropMark]
  intro r hr
  rcases d with ⟨_ | ⟨e, es⟩, _ | ⟨s, ss⟩, hn⟩
  · simp [Document.text] at hr
  · simp [Document.text, Headed.text] at hr
  all_goals
    obtain ⟨c, k, hk, hc⟩ := e.bare.cons
    have hne : c ≠ '\uFEFF' := isBare_ne hc (by decide)
    simp [Document.text, Entry.text, hk, hne] at hr

theorem Document.read_text (d : Document) : read d.text = some d.table := by
  have hs := d.yields (d.text.length + 1) (Nat.lt_succ_self _)
  simp only [read, d.dropMark_text, hs]
  exact d.ofStatements_statements

end Triage.Toml
