import Triage.Fixture.Shell.Token

set_option autoImplicit false

namespace Triage.Shell

inductive Extent where
  | line
  | body
  | optional
  deriving DecidableEq, Repr

def specialCommands : List Text :=
  [".", ":", "break", "continue", "eval", "exec", "exit", "export", "local", "readonly", "return",
    "set", "shift", "times", "trap", "unset"].map String.toList

namespace Token

def closers : List Text :=
  ["do", "done", "elif", "else", "esac", "fi", "then", "\x7d"].map String.toList

def closes : Token → Bool
  | .finish => true
  | .operator t => t = [')'] || t = [';', ';']
  | .keyword t => closers.contains t
  | _ => false

end Token

def Command.followedBy : Command → Command → Command
  | .nothing, c => c
  | b, c => .sequence b c

namespace Reading

def keyword (s : String) : Token := .keyword s.toList

def expect (t wanted : Token) : Reading Unit :=
  match t, wanted with
  | .keyword s, .keyword w => if s = w then return else refuse t wanted
  | .operator s, .operator w => if s = w then return else refuse t wanted
  | _, _ => refuse t wanted

def announce (mark : Word) (tabs : Bool) : Reading Nat := do
  let s ← get
  let number := s.documents.length + s.awaited.length
  set { s with awaited := s.awaited ++
    [(⟨number, mark.spelling, tabs, (Word.plain? mark).isNone⟩ : Announced)] }
  return number

def takeTarget (inner : Nested) (stream : Option Nat) (operator : Text) : Reading Redirect := do
  let document : Bool := operator.take 2 = ['<', '<']
  modify fun s => { s with literal := document }
  let t ← token inner false false
  modify fun s => { s with literal := false }
  match t with
  | .word w =>
    let stream := stream.getD (if operator.head? = some '<' then 0 else 1)
    if document then return .document stream (← announce w (operator.length = 3))
    else if operator.getLast? = some '&' then return .duplicate stream w
    else if operator = ['<'] then return .file stream .input w
    else if operator = ['<', '>'] then return .file stream .both w
    else if operator = ['>', '>'] then return .file stream .append w
    else return .file stream (.output (operator = ['>', '|'])) w
  | _ => refuse t none

def takeRedirects (inner : Nested) : Nat → Reading (List Redirect)
  | 0 => return []
  | n + 1 => do
    let t ← token inner false true
    match t with
    | .redirect stream operator =>
      let r ← takeTarget inner stream operator
      return r :: (← takeRedirects inner n)
    | _ =>
      keep t
      return []

def takeWords (inner : Nested) : Nat → Reading (List Word × Token)
  | 0 => return ([], .finish)
  | n + 1 => do
    match ← token inner false false with
    | .word w =>
      let (ws, t) ← takeWords inner n
      return (w :: ws, t)
    | t => return ([], t)

def takePatterns (inner : Nested) : Nat → Token → Reading (List Word × Token)
  | 0, t => return ([], t)
  | n + 1, first => do
    let w : Word := match first with
      | .word w => w
      | .keyword s => s.map .bare
      | _ => []
    let t ← token inner false false
    if t.isOperator ['|'] then
      let (ws, t) ← takePatterns inner n (← token inner false false)
      return (w :: ws, t)
    else return ([w], t)

structure Simple where
  assignments : List (Text × Word)
  words : List Word
  redirects : List Redirect

def Simple.name? (c : Simple) : Option Word :=
  match c with
  | ⟨[], [w], []⟩ => some w
  | _ => none

def exhausted {α : Type} : Reading α := fail "too deep".toList

mutual

def takeList : Nat → Extent → Bool → Command → Reading Command
  | 0, _, _, _ => exhausted
  | n + 1, extent, first, before => do
    let inner : Nested := ⟨inParentheses n, inBackquotes n⟩
    let t ← token inner (extent ≠ .line) true
    match t with
    | .newline =>
      takeDocuments inner
      return before
    | .finish =>
      takeDocuments inner
      keep t
      return before
    | _ =>
      keep t
      if t.closes ∧ (extent = .optional ∨ (extent = .body ∧ ¬ first)) then return before
      let c ← takePipeline n false
      let c ← takeJoined n c
      let t ← token inner false false
      let all := before.followedBy (if t.isOperator ['&'] then .background c else c)
      match t with
      | .finish =>
        takeDocuments inner
        keep t
        return all
      | .newline =>
        keep t
        takeList n extent false all
      | _ =>
        if t.isOperator ['&'] ∨ t.isOperator [';'] then takeList n extent false all
        else if extent = .line then refuse t none
        else
          keep t
          return all

def takeJoined : Nat → Command → Reading Command
  | 0, _ => exhausted
  | n + 1, c => do
    let t ← token ⟨inParentheses n, inBackquotes n⟩ false false
    if t.isOperator ['&', '&'] then takeJoined n (.both c (← takePipeline n true))
    else if t.isOperator ['|', '|'] then takeJoined n (.either c (← takePipeline n true))
    else
      keep t
      return c

def takePipeline : Nat → Bool → Reading Command
  | 0, _ => exhausted
  | n + 1, newlines => do
    let inner : Nested := ⟨inParentheses n, inBackquotes n⟩
    let t ← token inner newlines true
    let negated := t.isKeyword ['!']
    if !negated then keep t
    let cs ← takeCommands n false
    let c := match cs with
      | [c] => c
      | cs => .pipe cs
    return if negated then .negated c else c

def takeCommands : Nat → Bool → Reading (List Command)
  | 0, _ => exhausted
  | n + 1, newlines => do
    let inner : Nested := ⟨inParentheses n, inBackquotes n⟩
    let c ← takeCommand n newlines
    let t ← token inner false false
    if t.isOperator ['|'] then return c :: (← takeCommands n true)
    else
      keep t
      return [c]

def takeCommand : Nat → Bool → Reading Command
  | 0, _ => exhausted
  | n + 1, newlines => do
    let inner : Nested := ⟨inParentheses n, inBackquotes n⟩
    let line := (← get).line
    let t ← token inner newlines true
    match t with
    | .word _ | .redirect _ _ =>
      keep t
      takeSimple n (← get).line ⟨[], [], []⟩
    | _ =>
      let c ← takeCompound n line t
      let redirects ← takeRedirects inner (← bound)
      if redirects.isEmpty then return c
      else match c with
        | .subshell line c _ => return .subshell line c redirects
        | c => return .redirected line c redirects

def takeCompound : Nat → Nat → Token → Reading Command
  | 0, _, _ => exhausted
  | n + 1, line, t => do
    let inner : Nested := ⟨inParentheses n, inBackquotes n⟩
    let body : Reading Command := takeList n .body true .nothing
    let next : Reading Token := token inner false false
    if t.isKeyword "if".toList then takeBranch n
    else if t.isKeyword "while".toList ∨ t.isKeyword "until".toList then
      let condition ← body
      expect (← next) (keyword "do")
      let c ← body
      expect (← next) (keyword "done")
      return .loop (t.isKeyword "while".toList) condition c
    else if t.isKeyword "for".toList then
      let name ← match ← next with
        | .word w => pure ((Word.plain? w).getD [])
        | _ => pure []
      if !isName name then fail "Bad for loop variable".toList
      let t ← token inner true true
      let words ← if t.isKeyword "in".toList then
          let (ws, t) ← takeWords inner (← bound)
          match t with
          | .newline => pure ws
          | t => if t.isOperator [';'] then pure ws else refuse t none
        else
          if !t.isOperator [';'] then keep t
          pure [[.parameter true ['@'] .value]]
      expect (← token inner true true) (keyword "do")
      let c ← body
      expect (← next) (keyword "done")
      return .each line name words c
    else if t.isKeyword "case".toList then
      let subject ← match ← next with
        | .word w => pure w
        | t => refuse t (some (.word []))
      expect (← token inner true true) (keyword "in")
      return .choose line subject (← takeClauses n)
    else if t.isOperator ['('] then
      let c ← body
      expect (← next) (.operator [')'])
      return .subshell line c []
    else if t.isKeyword ['\x7b'] then
      let c ← body
      expect (← next) (keyword "\x7d")
      return c
    else refuse t none

def takeBranch : Nat → Reading Command
  | 0 => exhausted
  | n + 1 => do
    let inner : Nested := ⟨inParentheses n, inBackquotes n⟩
    let next : Reading Token := token inner false false
    let condition ← takeList n .body true .nothing
    expect (← next) (keyword "then")
    let yes ← takeList n .body true .nothing
    let t ← next
    if t.isKeyword "elif".toList then return .branch condition yes (← takeBranch n)
    else if t.isKeyword "else".toList then
      let no ← takeList n .body true .nothing
      expect (← next) (keyword "fi")
      return .branch condition yes no
    else
      expect t (keyword "fi")
      return .branch condition yes .nothing

def takeClauses : Nat → Reading (List (List Word × Command))
  | 0 => exhausted
  | n + 1 => do
    let inner : Nested := ⟨inParentheses n, inBackquotes n⟩
    let t ← token inner true true
    if t.isKeyword "esac".toList then return []
    let first ← if t.isOperator ['('] then token inner false false else pure t
    let (patterns, t) ← takePatterns inner (← bound) first
    expect t (.operator [')'])
    let body ← takeList n .optional true .nothing
    let t ← token inner true true
    if t.isKeyword "esac".toList then return [(patterns, body)]
    expect t (.operator [';', ';'])
    return (patterns, body) :: (← takeClauses n)

def takeSimple : Nat → Nat → Simple → Reading Command
  | 0, _, _ => exhausted
  | n + 1, line, c => do
    let inner : Nested := ⟨inParentheses n, inBackquotes n⟩
    let t ← token inner false false
    match t with
    | .word w =>
      match if c.words.isEmpty then Word.assignment? w else none with
      | some a => takeSimple n line { c with assignments := c.assignments ++ [a] }
      | none => takeSimple n line { c with words := c.words ++ [w] }
    | .redirect stream operator =>
      let r ← takeTarget inner stream operator
      takeSimple n line { c with redirects := c.redirects ++ [r] }
    | _ =>
      match c.name?, t.isOperator ['('] with
      | some w, true =>
        expect (← token inner false false) (.operator [')'])
        match Word.plain? w with
        | none => fail "Bad function name".toList
        | some name =>
          if !isName name || specialCommands.contains name then
            fail "Bad function name".toList
          let line := (← get).line
          return .define line name (← takeCommand n true)
      | _, _ =>
        keep t
        return .simple line c.assignments c.words c.redirects

def inParentheses : Nat → Reading Command
  | 0 => exhausted
  | n + 1 => do
    let c ← takeList n .optional true .nothing
    expect (← token ⟨inParentheses n, inBackquotes n⟩ false false) (.operator [')'])
    return c

def inBackquotes : Nat → Text → Reading Command
  | 0, _ => exhausted
  | n + 1, t => do
    let outer ← get
    set { outer with rest := t, line := 1 }
    let c ← takeList n .optional true .nothing
    modify fun s => { s with rest := outer.rest, line := outer.line, kept := none }
    return c

end

def takeLine : Reading (Command × Bool) := do
  modify fun s => { s with kept := none }
  let c ← takeList (12 * ((← get).rest.length + 4)) .line true .nothing
  match (← get).kept with
  | some .finish => return (c, true)
  | _ => return (c, false)

end Reading
end Triage.Shell
