import Triage.Diagnostic.Line

set_option autoImplicit false

namespace Triage.Transcript

inductive Effect where
  | nothing
  | extend (more : Text)
  | add (d : Diagnostic)
  deriving DecidableEq, Repr

/-- The effect of one line; carriage returns at its end do not count. -/
def effect (base raw : Text) : Effect :=
  let line := Text.trimEnd (· = '\r') raw
  if Text.blank line then .nothing
  else if line.head?.any Text.isBlank then .extend (Text.trimEnd Text.isBlank line)
  else match (Line.read line).bind (Line.Form.diagnostic base) with
    | some d => .add d
    | none => .nothing

def extendLast (more : Text) : List Diagnostic → List Diagnostic
  | [] => []
  | [d] => [{ d with message := d.message ++ '\n' :: more }]
  | d :: e :: r => d :: extendLast more (e :: r)

def Effect.apply (ds : List Diagnostic) : Effect → List Diagnostic
  | .nothing => ds
  | .extend more => extendLast more ds
  | .add d => ds ++ [d]

/-- The diagnostics of a text, files resolved against the base directory. -/
def read (base text : Text) : List Diagnostic :=
  ((Text.split '\n' text).map (effect base)).foldl Effect.apply []

end Triage.Transcript
