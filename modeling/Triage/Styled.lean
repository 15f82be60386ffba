import Triage.Text

set_option autoImplicit false

namespace Triage

inductive Hue where
  | red | green | yellow | blue | cyan | brightCyan
  deriving DecidableEq, Repr

def Hue.sequence : Hue → Text
  | .red => "31".toList
  | .green => "32".toList
  | .yellow => "33".toList
  | .blue => "34".toList
  | .cyan => "36".toList
  | .brightCyan => "96".toList

inductive Style where
  | plain
  | bold
  | dimmed
  | hue (h : Hue)
  | boldHue (h : Hue)
  deriving DecidableEq, Repr

def Style.sequence : Style → Text
  | .plain => []
  | .bold => ['1']
  | .dimmed => ['2']
  | .hue h => h.sequence
  | .boldHue h => '1' :: ';' :: h.sequence

structure Span where
  style : Style
  text : Text
  deriving DecidableEq, Repr

namespace Span

def escape : Char := '\x1b'

def reset : Text := [escape, '[', '0', 'm']

def opening (s : Style) : Text := escape :: '[' :: s.sequence ++ ['m']

def reopen (opening : Text) : Text → Text
  | [] => []
  | c :: r =>
    if c = escape ∧ r.take 3 = ['[', '0', 'm'] then
      match r with
      | a :: b :: d :: r => c :: a :: b :: d :: opening ++ reopen opening r
      | r => c :: reopen opening r
    else c :: reopen opening r

/-- The span as a terminal takes it; also an empty text is put between its sequences. -/
def coloured (s : Span) : Text :=
  if s.style = .plain then s.text
  else opening s.style ++ reopen (opening s.style) s.text ++ reset

end Span

abbrev Styled := List Span

namespace Styled

def text (t : Text) : Styled := [⟨.plain, t⟩]

def lit (s : String) : Styled := text s.toList

def inStyle (s : Style) (t : Text) : Styled := [⟨s, t⟩]

def plain (s : Styled) : Text := s.flatMap Span.text

@[simp] theorem plain_nil : plain [] = [] := rfl

@[simp] theorem plain_append (a b : Styled) : plain (a ++ b) = plain a ++ plain b := by
  simp [plain]

@[simp] theorem plain_flatMap {α : Type} (l : List α) (f : α → Styled) :
    plain (l.flatMap f) = l.flatMap fun a => plain (f a) := by
  induction l with
  | nil => rfl
  | cons a l ih => simp [ih]

@[simp] theorem plain_text (t : Text) : plain (text t) = t := by simp [plain, text]

@[simp] theorem plain_lit (s : String) : plain (lit s) = s.toList := plain_text s.toList

@[simp] theorem plain_inStyle (s : Style) (t : Text) : plain (inStyle s t) = t := by
  simp [plain, inStyle]

def coloured (s : Styled) : Text := s.flatMap Span.coloured

def render (colour : Bool) (s : Styled) : Text := if colour then s.coloured else s.plain

end Styled
end Triage
