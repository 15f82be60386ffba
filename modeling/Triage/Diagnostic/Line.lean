import Triage.Diagnostic
import Triage.Path
import Triage.Text.Decimal

set_option autoImplicit false

/-!
One line of plain compiler output. A line of diagnostic form reads either

    file(line,column): severity TScode: message
    severity TScode: message

The first form wins wherever it can be read at all, with the shortest file it can be read with.
Digits of every script and severities in every letter case make the form; a line that has the form
but no usable severity or code yields no diagnostic.
-/

namespace Triage.Line

/-- What follows the location: severity, code and message as they are spelled. -/
structure Heading where
  severity : Text
  code : Text
  message : Text
  deriving DecidableEq, Repr

structure Marker where
  line : Text
  column : Text
  heading : Heading
  deriving DecidableEq, Repr

inductive Form where
  | located (file : Text) (marker : Marker)
  | global (heading : Heading)
  deriving DecidableEq, Repr

def takeWord (w t : Text) : Option (Text × Text) :=
  let taken := t.take w.length
  if taken.map Text.fold = w then some (taken, t.drop w.length) else none

def takeDigits (t : Text) : Option (Text × Text) :=
  match t.takeWhile Text.isDecimal with
  | [] => none
  | ds => some (ds, t.dropWhile Text.isDecimal)

def readHeading (t : Text) : Option Heading := do
  let (severity, t) ← (Severity.all.map Severity.word).findSome? (takeWord · t)
  let t ← Text.after? " TS".toList t
  let (code, t) ← takeDigits t
  let message ← Text.after? ": ".toList t
  return ⟨severity, code, message⟩

def readMarker (t : Text) : Option Marker := do
  let t ← Text.after? "(".toList t
  let (line, t) ← takeDigits t
  let t ← Text.after? ",".toList t
  let (column, t) ← takeDigits t
  let t ← Text.after? "): ".toList t
  let heading ← readHeading t
  return ⟨line, column, heading⟩

/-- The shortest non-empty start of the text that a marker follows, with that marker. -/
def splitFile : Text → Option (Text × Marker)
  | [] => none
  | c :: t =>
    match readMarker t with
    | some m => some ([c], m)
    | none => (splitFile t).map fun r => (c :: r.1, r.2)

def read (t : Text) : Option Form :=
  match splitFile t with
  | some (file, m) => some (.located file m)
  | none => (readHeading t).map .global

def Heading.diagnostic (h : Heading) : Option Diagnostic := do
  let severity ← Severity.ofAnyCase? h.severity
  let code ← Text.toWord? h.code
  return { file := none, line := none, column := none, code, severity, message := h.message }

/-- The diagnostic of a form, its file resolved against the base directory. A line or column that is
no ASCII number below `2 ^ 32` is left out. -/
def Form.diagnostic (base : Text) : Form → Option Diagnostic
  | .global h => h.diagnostic
  | .located file m => do
    let d ← m.heading.diagnostic
    return { d with
      file := some (resolve base file)
      line := Text.toWord? m.line
      column := Text.toWord? m.column }

end Triage.Line
