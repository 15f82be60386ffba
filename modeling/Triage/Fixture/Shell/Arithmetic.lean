import Triage.Fixture.Shell.Number
import Triage.Fixture.Shell.Script

set_option autoImplicit false

/-!
Arithmetic expressions on 64-bit integers, which wrap around. An operand that does not matter to the
result is not evaluated. A place where an expression is ill-formed is a part of it like any other,
so that of two errors the first one counts.
-/

namespace Triage.Shell.Arithmetic

inductive Operation where
  | times | over | modulo | plus | minus | shiftLeft | shiftRight
  | less | atMost | greater | atLeast | equal | unequal | bitAnd | bitXor | bitOr
  deriving DecidableEq, Repr

namespace Operation

def table : List (String × Operation) :=
  [("*", .times), ("/", .over), ("%", .modulo), ("+", .plus), ("-", .minus), ("<<", .shiftLeft),
   (">>", .shiftRight), ("<", .less), ("<=", .atMost), (">", .greater), (">=", .atLeast),
   ("==", .equal), ("!=", .unequal), ("&", .bitAnd), ("^", .bitXor), ("|", .bitOr)]

def ofSign? (t : Text) : Option Operation :=
  (table.find? fun e => e.1.toList = t).map (·.2)

def rank : Operation → Nat
  | .times | .over | .modulo => 0
  | .plus | .minus => 1
  | .shiftLeft | .shiftRight => 2
  | .less | .atMost | .greater | .atLeast => 3
  | .equal | .unequal => 4
  | .bitAnd => 5
  | .bitXor => 6
  | .bitOr => 7

def truth (b : Bool) : Int64 := if b then 1 else 0

def apply (a b : Int64) : Operation → Option Int64
  | .times => some (a * b)
  | .over => if b = 0 then none else some (a / b)
  | .modulo => if b = 0 then none else some (a % b)
  | .plus => some (a + b)
  | .minus => some (a - b)
  | .shiftLeft => some (a <<< b)
  | .shiftRight => some (a >>> b)
  | .less => some (truth (a < b))
  | .atMost => some (truth (a ≤ b))
  | .greater => some (truth (b < a))
  | .atLeast => some (truth (b ≤ a))
  | .equal => some (truth (a = b))
  | .unequal => some (truth (a ≠ b))
  | .bitAnd => some (a &&& b)
  | .bitXor => some (a ^^^ b)
  | .bitOr => some (a ||| b)

end Operation

inductive Error where
  | expectingOperand
  | expectingClose
  | expectingColon
  | expectingEnd
  | divisionByZero
  | illegalNumber (t : Text)
  deriving DecidableEq, Repr

namespace Error

def message (expression : Text) : Error → Text
  | .illegalNumber t => "Illegal number: ".toList ++ t
  | .expectingOperand => about "expecting primary"
  | .expectingClose => about "expecting ')'"
  | .expectingColon => about "expecting ':'"
  | .expectingEnd => about "expecting EOF"
  | .divisionByZero => about "division by zero"
where
  about (what : String) : Text :=
    "arithmetic expression: ".toList ++ what.toList ++ ": \"".toList ++ expression ++ ['"']

end Error

inductive Expression where
  | number (n : Int64)
  | variable (name : Text)
  | negative (e : Expression)
  | not (e : Expression)
  | complement (e : Expression)
  | operation (o : Operation) (a b : Expression)
  | both (a b : Expression)
  | either (a b : Expression)
  | choose (condition yes no : Expression)
  | assign (name : Text) (o : Option Operation) (e : Expression)
  | ill (e : Error)
  | incomplete (before : Expression) (e : Error)
  deriving Repr

inductive Token where
  | number (n : Int64)
  | name (t : Text)
  | sign (t : Text)
  deriving DecidableEq, Repr

def longSigns : List Text :=
  ["<<=", ">>=", "&&", "||", "<<", ">>", "<=", ">=", "==", "!=", "+=", "-=", "*=", "/=", "%=",
    "&=", "|=", "^="].map String.toList

def tokens : Nat → Text → List Token
  | 0, _ => []
  | _ + 1, [] => []
  | n + 1, c :: r =>
    if c = ' ' ∨ c = '\t' ∨ c = '\n' then tokens n r
    else if c.isDigit then
      match Number.takeNatural none (c :: r) with
      | some (v, rest) => .number (Int64.ofInt (Number.clamp false v)) :: tokens n rest
      | none => .sign [c] :: tokens n r
    else if isNameStart c then
      let name := (c :: r).takeWhile isNameChar
      .name name :: tokens n ((c :: r).drop name.length)
    else
      match longSigns.findSome? fun s => (Text.after? s (c :: r)).map fun rest => (s, rest) with
      | some (s, rest) => .sign s :: tokens n rest
      | none => .sign [c] :: tokens n r

def assigning? (t : Text) : Option (Option Operation) :=
  if t = ['='] then some none
  else if t.getLast? = some '=' ∧ t.length ≠ 1 ∧ ¬ ["==", "!=", "<=", ">="].contains
      (String.ofList t) then
    (Operation.ofSign? t.dropLast).map some
  else none

abbrev Reader := StateM (List Token)

def next? : Reader (Option Text) := do
  match ← get with
  | .sign t :: _ => return some t
  | _ => return none

def advance : Reader Unit := modify List.tail

def accept (t : Text) : Reader Bool := do
  if (← next?) = some t then advance; return true else return false

mutual

def readAssignment : Nat → Reader Expression
  | 0 => return .ill .expectingOperand
  | n + 1 => do
    match ← get with
    | .name x :: .sign s :: r =>
      match assigning? s with
      | some o =>
        set r
        return .assign x o (← readAssignment n)
      | none => readChoice n
    | _ => readChoice n

def readChoice : Nat → Reader Expression
  | 0 => return .ill .expectingOperand
  | n + 1 => do
    let condition ← readEither n
    if ← accept ['?'] then
      let yes ← readAssignment n
      if ← accept [':'] then return .choose condition yes (← readChoice n)
      else return .choose condition yes (.ill .expectingColon)
    else return condition

def readEither : Nat → Reader Expression
  | 0 => return .ill .expectingOperand
  | n + 1 => do
    let a ← readBoth n
    if ← accept ['|', '|'] then return .either a (← readEither n) else return a

def readBoth : Nat → Reader Expression
  | 0 => return .ill .expectingOperand
  | n + 1 => do
    let a ← readOperand n
    let a ← readOperations n 7 a
    if ← accept ['&', '&'] then return .both a (← readBoth n) else return a

def readOperations : Nat → Nat → Expression → Reader Expression
  | 0, _, _ => return .ill .expectingOperand
  | n + 1, rank, a => do
    match (← next?).bind Operation.ofSign? with
    | none => return a
    | some o =>
      if rank < o.rank then return a
      advance
      let b ← readOperand n
      let b ← if o.rank = 0 then pure b else readOperations n (o.rank - 1) b
      readOperations n rank (.operation o a b)

def readOperand : Nat → Reader Expression
  | 0 => return .ill .expectingOperand
  | n + 1 => do
    match ← get with
    | .number v :: r =>
      set r
      return .number v
    | .name x :: r =>
      set r
      return .variable x
    | _ =>
      if ← accept ['('] then
        let e ← readAssignment n
        return if ← accept [')'] then e else .incomplete e .expectingClose
      else if ← accept ['+'] then readOperand n
      else if ← accept ['-'] then return .negative (← readOperand n)
      else if ← accept ['!'] then return .not (← readOperand n)
      else if ← accept ['~'] then return .complement (← readOperand n)
      else return .ill .expectingOperand

end

def read (t : Text) : Expression :=
  let ts := tokens t.length t
  let (e, rest) := (readAssignment (10 * ts.length + 10)).run ts
  if rest.isEmpty then e else .incomplete e .expectingEnd

def Expression.fault? : Expression → Option Error
  | .number _ | .variable _ => none
  | .negative e | .not e | .complement e | .assign _ _ e => e.fault?
  | .operation _ a b | .both a b | .either a b => a.fault? <|> b.fault?
  | .choose c a b => c.fault? <|> a.fault? <|> b.fault?
  | .ill e => some e
  | .incomplete a e => a.fault? <|> some e

abbrev Assigned := List (Text × Int64)

abbrev Evaluation := StateT Assigned (Except Error)

def valueOf (before : Text → Text) (name : Text) : Evaluation Int64 := do
  match (← get).find? fun a => a.1 = name with
  | some (_, n) => return n
  | none =>
    match Number.read? none (before name) with
    | some n => return Int64.ofInt n
    | none => throw (.illegalNumber (before name))

def operate (o : Operation) (a b : Int64) : Evaluation Int64 :=
  match o.apply a b with
  | some n => return n
  | none => throw .divisionByZero

def pass (e : Expression) : Evaluation Unit :=
  match e.fault? with
  | some f => throw f
  | none => return

def Expression.evaluate (before : Text → Text) : Expression → Evaluation Int64
  | .number n => return n
  | .variable x => valueOf before x
  | .negative e => do return -(← e.evaluate before)
  | .not e => do return Operation.truth ((← e.evaluate before) = 0)
  | .complement e => do return ~~~(← e.evaluate before)
  | .operation o a b => do
    let a ← a.evaluate before
    operate o a (← b.evaluate before)
  | .both a b => do
    if (← a.evaluate before) = 0 then
      pass b
      return 0
    else return Operation.truth ((← b.evaluate before) ≠ 0)
  | .either a b => do
    if (← a.evaluate before) ≠ 0 then
      pass b
      return 1
    else return Operation.truth ((← b.evaluate before) ≠ 0)
  | .choose c a b => do
    if (← c.evaluate before) ≠ 0 then
      let n ← a.evaluate before
      pass b
      return n
    else
      pass a
      b.evaluate before
  | .assign x o e => do
    let b ← e.evaluate before
    let n ← match o with
      | some o => operate o (← valueOf before x) b
      | none => pure b
    modify ((x, n) :: ·)
    return n
  | .ill e => throw e
  | .incomplete a e => do
    let _ ← a.evaluate before
    throw e

def evaluate (before : Text → Text) (t : Text) : Except Error (Int64 × Assigned) := do
  ((read t).evaluate before).run []

end Triage.Shell.Arithmetic
