import Triage.Fixture.Shell.Arithmetic
import Triage.Fixture.Shell.State

set_option autoImplicit false

/-!
What words come to. Pieces turn into cells, which remember what was quoted and what came of an
expansion; cells are cut into fields, and fields with wildcards into the names of files.
-/

namespace Triage.Shell

inductive Cell where
  | char (c : Char) (quoted parts : Bool)
  | quotes
  | gap
  deriving DecidableEq, Repr

namespace Cell

def char? : Cell → Option Char
  | .char c _ _ => some c
  | _ => none

def glyph? : Cell → Option Glyph
  | .char c quoted _ => some ⟨c, quoted⟩
  | _ => none

def text (cs : List Cell) : Text := cs.filterMap char?

def glyphs (cs : List Cell) : List Glyph := cs.filterMap glyph?

def bare (parts : Bool) (t : Text) : List Cell := t.map fun c => .char c false parts

def quoted (t : Text) : List Cell :=
  t.flatMap fun c => if c = '\x00' then [.gap, .quotes] else [.char c true false]

/-- The cells of a field so far, and how far a separator reaches behind it: over blanks, and over
one more separator if that one was a blank. -/
structure Open where
  cells : List Cell
  reach : Option Bool

/-- Cells cut into fields. A field ends at a separator; blanks among the separators count once, and
not at all before a field. -/
def fields (separators : Text) : Open → List Cell → List (List Cell)
  | o, [] => if o.cells.isEmpty then [] else [o.cells.reverse]
  | o, .gap :: r => o.cells.reverse :: fields separators ⟨[], none⟩ r
  | o, .quotes :: r => fields separators ⟨.quotes :: o.cells, none⟩ r
  | o, .char c quoted parts :: r =>
    let blank := c = '\x00' ∨ Run.blanks.contains c
    if parts ∧ (c = '\x00' ∨ separators.contains c) then
      match o.reach with
      | some after =>
        if blank then fields separators o r
        else if after then fields separators ⟨[], some false⟩ r
        else [] :: fields separators ⟨[], some false⟩ r
      | none =>
        if o.cells.isEmpty ∧ blank then fields separators o r
        else o.cells.reverse :: fields separators ⟨[], some (decide blank)⟩ r
    else fields separators ⟨.char c quoted parts :: o.cells, none⟩ r

end Cell

namespace Run

/-! ### Parameters -/

def optionLetters : List Char := "efIimnsxvVECabup".toList

def joint : Run Text := do return (← separators).take 1

def parameter (quoted full : Bool) (name : Text) : Run (Option Text) := do
  let s ← get
  match name with
  | ['@'] | ['*'] =>
    let sep ← joint
    let whole : Bool := full && (!quoted || name = ['@'])
    return some (Text.join (if whole then ['\x00'] else sep) s.args)
  | ['#'] => return some (Text.ofNat s.args.length)
  | ['?'] => return some (Text.ofNat s.status)
  | ['$'] => return some (Text.ofNat s.process)
  | ['!'] => return s.lastBackground.map Text.ofNat
  | ['-'] => return some (optionLetters.reverse.filter s.options.contains)
  | ['0'] => return some s.name
  | _ =>
    match Text.toNat? name with
    | some n => return if n = 0 then some s.name else s.args[n - 1]?
    | none => valueOf? name

def unset {α : Type} (name : Text) (ofEmpty : Bool) (message : Option Text) : Run α :=
  let standard := "parameter not set".toList ++ if ofEmpty then " or null".toList else []
  fail (name ++ ": ".toList ++ message.getD standard)

def demanded (name : Text) (v : Option Text) : Run Text := do
  match v with
  | some v => return v
  | none => if ← hasOption 'u' then unset name false none else return []

/-- The cells of a parameter's value. All arguments one by one are fields even if they are empty,
but when there are none they make no field. -/
def cellsOfValue (quoted full : Bool) (name t : Text) : Run (List Cell) := do
  if !quoted then return Cell.bare full t
  let start : List Cell := if name = ['@'] ∧ (← get).args ≠ [] then [.quotes] else []
  return start ++ Cell.quoted t

def sum (expression : Text) : Run Text := do
  let vs := (← get).environment
  let before (name : Text) : Text := ((vs.get? name).bind (·.value)).getD []
  match Arithmetic.evaluate before expression with
  | .error e => fail (e.message expression)
  | .ok (n, assigned) =>
    assigned.reverse.forM fun a => setVariable a.1 (Number.render a.2.toInt)
    return Number.render n.toInt

/-! ### Words -/

/-- A tilde at the start of a word is the home directory if its name ends there; in assignments a
colon ends and starts names as well. -/
def homes (home : Option Text) (assignment : Bool) : Bool → Word → Word
  | _, [] => []
  | start, .bare c :: r =>
    let ends : Bool := match r with
      | [] => true
      | .bare d :: _ => d = '/' || (assignment && d = ':')
      | _ => false
    match home with
    | some h =>
      if start ∧ c = '~' ∧ ends then h.map .exact ++ homes home assignment false r
      else .bare c :: homes home assignment (assignment && c = ':') r
    | none => .bare c :: r
  | _, p :: r => p :: homes home assignment false r

def trimmedOutput (t : Text) : Text := Text.trimEnd (· = '\n') (t.filter (· ≠ '\x00'))

mutual

/-- The cells of a piece, given how scripts are run. Where fields are made, expansions part; inside
another expansion everything outside quotes does. -/
def cellsOfPiece (script : Command → Run Text) (full inside : Bool) : Piece → Run (List Cell)
  | .bare c => return [.char c false inside]
  | .exact c => return [.char c true false]
  | .quotes => return [.quotes]
  | .output quoted c => do
    let t := trimmedOutput (← script c)
    return if quoted then Cell.quoted t else Cell.bare full t
  | .sum quoted e => do
    let t ← sum (Cell.text (← cellsOfWord script false false e))
    return if quoted then Cell.quoted t else Cell.bare full t
  | .parameter quoted name .value => do
    cellsOfValue quoted full name (← demanded name (← parameter quoted full name))
  | .parameter quoted name .length => do
    let t := Text.ofNat (← demanded name (← parameter quoted full name)).length
    return if quoted then Cell.quoted t else Cell.bare full t
  | .parameter _ _ .ill => fail "Bad substitution".toList
  | .parameter quoted name (.trim side longest w) => do
    let v ← parameter quoted full name
    if v.isNone then
      let _ ← demanded name v
      return []
    let t := v.getD []
    let p := Pattern.ofGlyphs (Cell.glyphs (← cellsOfWord script false false w))
    let t := match side with
      | .front => p.trimFront longest t
      | .back => p.trimBack longest t
    return if quoted then Cell.quoted t else Cell.bare full t
  | .parameter quoted name (.fallback remedy ofEmpty w) => do
    let v ← parameter quoted full name
    let missing : Bool := v.isNone || (ofEmpty && v = some [])
    match remedy, missing with
    | .replace, true => return []
    | .substitute, false | .assign, false | .complain, false =>
      cellsOfValue quoted full name (v.getD [])
    | .substitute, true | .replace, false => cellsOfWord script full (full && !quoted) w
    | .assign, true =>
      let t := Cell.text (← cellsOfWord script false false w)
      if !isName name then fail (name ++ ": bad variable name".toList)
      setVariable name t
      cellsOfValue quoted full name t
    | .complain, true =>
      let t := Cell.text (← cellsOfWord script false false w)
      unset name ofEmpty (if w.isEmpty then none else some t)

def cellsOfWord (script : Command → Run Text) (full inside : Bool) :
    List Piece → Run (List Cell)
  | [] => return []
  | p :: r => do
    let cs ← cellsOfPiece script full inside p
    return cs ++ (← cellsOfWord script full inside r)

end

def textOfWord (script : Command → Run Text) (w : Word) : Run Text := do
  let home ← valueOf? "HOME".toList
  return Cell.text (← cellsOfWord script false false (homes home false true w))

def textOfValue (script : Command → Run Text) (w : Word) : Run Text := do
  let home ← valueOf? "HOME".toList
  return Cell.text (← cellsOfWord script false false (homes home true true w))

def patternOfWord (script : Command → Run Text) (w : Word) : Run Pattern := do
  let home ← valueOf? "HOME".toList
  return Pattern.ofGlyphs (Cell.glyphs (← cellsOfWord script false false (homes home false true w)))

/-! ### Names of files -/

def path (t : Text) : Run Text := do
  let s ← get
  return if t = [] then [] else Text.under s.dir (Octets.text t)

def place? (t : Text) : Run (Except IoError (List Text)) := do
  return (← get).shared.tree.find (← path t)

def namesIn (t : Text) : Run (List Text) := do
  let s ← get
  match s.shared.tree.find (← path (if t = [] then ['.'] else t)) with
  | .error _ => return []
  | .ok place =>
    if (s.shared.tree.node? place).any (· = .directory) then
      let names := s.shared.tree.keys.filterMap fun k =>
        match k.getLast? with
        | some n => if k.dropLast = place then some (Octets.ofText n) else none
        | none => none
      return ['.'] :: ['.', '.'] :: names
    else return []

def isWild (gs : List Glyph) : Bool := gs.any fun g => !g.exact && ['*', '?', '['].contains g.char

/-- The paths that patterns for the parts of a path match, behind what is already matched. A name
with a point at its start is matched only by such a pattern. -/
def paths : Text → List (List Glyph) → Run (List Text)
  | before, [] => return [before]
  | before, gs :: r => do
    let sep : Text := if r.isEmpty then [] else ['/']
    if isWild gs then
      let p := Pattern.ofGlyphs gs
      let hidden := gs.head?.any fun g => g.char = '.'
      let names := (← namesIn before).filter fun n =>
        (hidden || n.head? ≠ some '.') && p.holds n
      let found ← names.mapM fun n => paths (before ++ n ++ sep) r
      return found.flatten
    else
      let t := before ++ gs.map (·.char) ++ sep
      if r.isEmpty then return if (← place? t).isOk then [t] else []
      else paths t r

def parts : List Glyph → List (List Glyph)
  | [] => [[]]
  | g :: r => if g.char = '/' then [] :: parts r else (parts r).modifyHead (g :: ·)

def named (gs : List Glyph) : Run (List Text) := do
  let itself := [gs.map (·.char)]
  if !isWild gs || (← hasOption 'f') then return itself
  let found ← paths [] (parts (Glyph.unescape gs))
  return if found.isEmpty then itself else (SortedSet.ofList found).keys

def fieldsOfWord (script : Command → Run Text) (w : Word) : Run (List Text) := do
  let home ← valueOf? "HOME".toList
  let cs ← cellsOfWord script true false (homes home false true w)
  let fs := Cell.fields (← separators) ⟨[], none⟩ cs
  return (← fs.mapM fun f => named (Cell.glyphs f)).flatten

def fieldsOfWords (script : Command → Run Text) (ws : List Word) : Run (List Text) := do
  return (← ws.mapM (fieldsOfWord script)).flatten

end Run
end Triage.Shell
