import Triage.Fixture.Shell.Source

set_option autoImplicit false

namespace Triage.Shell

inductive Context where
  | word
  | quoted
  | braced (quoted : Bool)
  | sum (depth : Nat)
  | document
  deriving DecidableEq, Repr

namespace Context

def isQuoted : Context → Bool
  | .word | .braced false => false
  | _ => true

def piece (k : Context) (c : Char) : Piece := if k.isQuoted then .exact c else .bare c

def unclosed : Context → Text
  | .sum _ => "Missing '))'".toList
  | .braced false => "Missing '\x7d'".toList
  | _ => "Unterminated quoted string".toList

def escapes (k : Context) (c : Char) : Bool :=
  match k with
  | .word | .braced false => true
  | .document => ['\\', '$', '\x60'].contains c
  | .braced true => ['\\', '$', '\x60', '"', '\x7d'].contains c
  | _ => ['\\', '$', '\x60', '"'].contains c

end Context

def isBreak (c : Char) : Bool :=
  [' ', '\t', '\n', ';', '&', '|', '<', '>', '(', ')'].contains c

def isSpecial (c : Char) : Bool :=
  ['@', '*', '#', '?', '$', '!', '-'].contains c || ('0' ≤ c && c ≤ '9')

structure Nested where
  parenthesised : Reading Command
  backquoted : Text → Reading Command

namespace Reading

def takeSingle : Nat → Reading Word
  | 0 => fail (Context.unclosed .quoted)
  | n + 1 => do
    match (← get).rest.head? with
    | none => fail (Context.unclosed .quoted)
    | some c =>
      advance
      if c = '\'' then return [] else return .exact c :: (← takeSingle n)

def takeBackquoted (quoted : Bool) : Nat → Reading Text
  | 0 => fail "EOF in backquote substitution".toList
  | n + 1 => do
    match ← peek with
    | none => fail "EOF in backquote substitution".toList
    | some '\x60' => advance; return []
    | some '\\' =>
      advance
      match (← get).rest.head? with
      | none => fail "EOF in backquote substitution".toList
      | some c =>
        advance
        if ['\\', '$', '\x60'].contains c || (quoted && c = '"') then
          return c :: (← takeBackquoted quoted n)
        else return '\\' :: c :: (← takeBackquoted quoted n)
    | some c => advance; return c :: (← takeBackquoted quoted n)

def takeName : Reading Text := do
  let n := (← get).rest.length
  match ← peek with
  | some c => takeWhile (if isNameStart c then isNameChar else Char.isDigit) n
  | none => return []

def takeBracedName : Reading (Option (Text × Bool)) := do
  match ← peek with
  | none | some '\x7d' => return none
  | some c =>
    if isNameChar c then return some (← takeName, false)
    advance
    if c = '#' then
      match ← peek with
      | some d =>
        if isNameChar d then return some (← takeName, true)
        let before ← get
        advance
        if d ≠ '\x7d' ∧ (← peek) = some '\x7d' then
          return if isSpecial d then some ([d], true) else none
        set before
        return some (['#'], false)
      | none => return some (['#'], false)
    else return if isSpecial c then some ([c], false) else none

/-- What is done to a parameter in braces, before its word is read; the flag tells whether that
word stands between the quotes around the braces. -/
def takeUse : Reading (Option ((Word → Use) × Bool)) := do
  let ofEmpty ← accept ':'
  let use (r : Remedy) := some (Use.fallback r ofEmpty, true)
  match ← peek with
  | some '-' => advance; return use .substitute
  | some '=' => advance; return use .assign
  | some '?' => advance; return use .complain
  | some '+' => advance; return use .replace
  | some '\x7d' =>
    advance
    return if ofEmpty then some (fun _ => Use.value, true) else none
  | some c =>
    advance
    if ¬ ofEmpty ∧ (c = '%' ∨ c = '#') then
      let longest ← accept c
      return some (Use.trim (if c = '#' then .front else .back) longest, false)
    else return some (fun _ => Use.ill, true)
  | none => return some (fun _ => Use.ill, true)

def isAllArguments : Word → Bool
  | [.parameter _ ['@'] .value] => true
  | _ => false

mutual

def takePieces (inner : Nested) : Nat → Context → Reading Word
  | 0, k => fail k.unclosed
  | n + 1, k => do
    match ← peek with
    | none => if k = .word ∨ k = .document then return [] else fail k.unclosed
    | some c =>
      if k = .word ∧ isBreak c then return []
      advance
      let quotable : Bool := k = .word || k = .braced false
      match k, c with
      | .quoted, '"' => return []
      | .braced _, '\x7d' => return []
      | .sum 0, ')' =>
        if ← accept ')' then return [] else return .exact c :: (← takePieces inner n k)
      | .sum (d + 1), ')' => return .exact c :: (← takePieces inner n (.sum d))
      | .sum d, '(' => return .exact c :: (← takePieces inner n (.sum (d + 1)))
      | _, _ =>
        if c = '\'' ∧ quotable then
          let w ← takeSingle ((← get).rest.length + 1)
          return .quotes :: w ++ (← takePieces inner n k)
        else if c = '"' ∧ (quotable ∨ k = .braced true) then
          let w ← takePieces inner n .quoted
          let w := if isAllArguments w then w else .quotes :: w
          return w ++ (← takePieces inner n k)
        else if c = '\\' then
          match (← get).rest.head? with
          | none => return .exact c :: (← takePieces inner n k)
          | some d =>
            advance
            let w := if k.escapes d then [.exact d] else [.exact c, .exact d]
            return w ++ (← takePieces inner n k)
        else if c = '$' ∧ !(← get).literal then
          let w ← takeDollar inner n k
          return w ++ (← takePieces inner n k)
        else if c = '\x60' ∧ !(← get).literal then
          let t ← takeBackquoted k.isQuoted ((← get).rest.length + 1)
          let script ← inner.backquoted t
          return .output k.isQuoted script :: (← takePieces inner n k)
        else return k.piece c :: (← takePieces inner n k)

def takeDollar (inner : Nested) : Nat → Context → Reading Word
  | 0, k => return [k.piece '$']
  | n + 1, k => do
    let quoted := k.isQuoted
    match ← peek with
    | some '(' =>
      advance
      if ← accept '(' then return [.sum quoted (← takePieces inner n (.sum 0))]
      else return [.output quoted (← inner.parenthesised)]
    | some '\x7b' =>
      advance
      match ← takeBracedName with
      | none =>
        let _ ← takePieces inner n (.braced quoted)
        return [.parameter quoted [] .ill]
      | some (name, true) =>
        let sound := (← peek) = some '\x7d'
        let _ ← takePieces inner n (.braced quoted)
        return [.parameter quoted name (if sound then .length else .ill)]
      | some (name, false) =>
        match ← takeUse with
        | none => return [.parameter quoted name .value]
        | some (use, same) =>
          let w ← takePieces inner n (.braced (quoted && same))
          return [.parameter quoted name (use w)]
    | some c =>
      if isNameStart c then return [.parameter quoted (← takeName) .value]
      else if isSpecial c then
        advance
        return [.parameter quoted [c] .value]
      else return [k.piece '$']
    | none => return [k.piece '$']

end

def bound : Reading Nat := do return 3 * (← get).rest.length + 3

def takeWord (inner : Nested) : Reading Word := do takePieces inner (← bound) .word

def skipBlanks : Nat → Reading Unit
  | 0 => return
  | n + 1 => do
    match ← peek with
    | some c =>
      if c = ' ' ∨ c = '\t' then
        advance
        skipBlanks n
      else if c = '#' then
        advanceBy ((← get).rest.takeWhile (· ≠ '\n')).length
      else return
    | none => return

def keywords : List Text :=
  ["!", "case", "do", "done", "elif", "else", "esac", "fi", "for", "if", "in", "then", "until",
    "while", "\x7b", "\x7d"].map String.toList

def takeRedirect (c : Char) : Reading Text := do
  advance
  let second ← peek
  let two (d : Char) : Reading Text := do
    advance
    return [c, d]
  match c, second with
  | '<', some '<' =>
    advance
    return if ← accept '-' then "<<-".toList else "<<".toList
  | '<', some '&' => two '&'
  | '<', some '>' => two '>'
  | '>', some '>' => two '>'
  | '>', some '|' => two '|'
  | '>', some '&' => two '&'
  | _, _ => return [c]

def lex (inner : Nested) : Reading Token := do
  skipBlanks ((← get).rest.length + 1)
  let double (c : Char) : Reading Token := do
    advance
    return .operator (if ← accept c then [c, c] else [c])
  match ← peek with
  | none => return .finish
  | some '\n' => advance; return .newline
  | some '&' => double '&'
  | some '|' => double '|'
  | some ';' => double ';'
  | some '(' => advance; return .operator ['(']
  | some ')' => advance; return .operator [')']
  | some _ =>
    let w ← takeWord inner
    let next ← peek
    match next, w with
    | some '<', [] => return .redirect none (← takeRedirect '<')
    | some '>', [] => return .redirect none (← takeRedirect '>')
    | some c, [.bare d] =>
      if d.isDigit ∧ (c = '<' ∨ c = '>') then
        return .redirect (some (d.toNat - '0'.toNat)) (← takeRedirect c)
      else return .word w
    | _, _ => return .word w

def endsInEscape (t : Text) : Bool := (t.reverse.takeWhile (· = '\\')).length % 2 = 1

def takeLines (a : Announced) : Nat → Bool → Reading Text
  | 0, _ => return []
  | n + 1, joined => do
    let rest := (← get).rest
    if rest = [] then return []
    if a.tabs ∧ ¬ joined then advanceBy (rest.takeWhile (· = '\t')).length
    let line := (← get).rest.takeWhile (· ≠ '\n')
    advanceBy line.length
    let closed := (← get).rest ≠ []
    advance
    if line = a.mark ∧ ¬ joined then return []
    else
      let more ← takeLines a n (!a.exact && endsInEscape line)
      return line ++ (if closed then ['\n'] else []) ++ more

def takeDocument (inner : Nested) (a : Announced) : Reading Unit := do
  let line := (← get).line
  let t ← takeLines a ((← get).rest.length + 1) false
  if a.exact then
    modify fun s => { s with documents := (a.number, t.map .exact) :: s.documents }
  else
    let after ← get
    set { after with rest := t, line := line }
    let w ← takePieces inner (← bound) .document
    modify fun s => { s with
      rest := after.rest
      line := after.line
      documents := (a.number, w) :: s.documents }

def takeDocuments (inner : Nested) : Reading Unit := do
  let awaited := (← get).awaited
  modify fun s => { s with awaited := [] }
  awaited.forM (takeDocument inner)

def takeToken (inner : Nested) (newlines : Bool) : Nat → Reading Token
  | 0 => return .finish
  | n + 1 => do
    let t ← match (← get).kept with
      | some t =>
        modify fun s => { s with kept := none }
        pure t
      | none => lex inner
    match t with
    | .newline =>
      if newlines then
        takeDocuments inner
        takeToken inner newlines n
      else return t
    | _ => return t

def token (inner : Nested) (newlines keyword : Bool) : Reading Token := do
  let t ← takeToken inner newlines ((← get).rest.length + 2)
  match t with
  | .word w =>
    match Word.plain? w with
    | some s => if keyword ∧ keywords.contains s then return .keyword s else return t
    | none => return t
  | _ => return t

end Reading
end Triage.Shell
