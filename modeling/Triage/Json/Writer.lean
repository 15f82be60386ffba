import Triage.Json.Quoted

set_option autoImplicit false

namespace Triage.Json

structure Layout where
  /-- Before an item, or before a closing bracket, at a depth. -/
  line : Nat → Text
  /-- Behind the colon of a member. -/
  gap : Text

def Layout.compact : Layout := ⟨fun _ => [], []⟩

def Layout.pretty : Layout := ⟨fun n => '\n' :: List.replicate (2 * n) ' ', [' ']⟩

mutual

def write (l : Layout) (depth : Nat) : Json → Text
  | .null => "null".toList
  | .bool true => "true".toList
  | .bool false => "false".toList
  | .number s => s
  | .string s => '"' :: s ++ ['"']
  | .array [] => ['[', ']']
  | .array (x :: xs) =>
    '[' :: l.line (depth + 1) ++ write l (depth + 1) x ++ writeItems l depth xs
  | .object [] => ['\x7b', '\x7d']
  | .object ((k, x) :: xs) =>
    '\x7b' :: l.line (depth + 1) ++ '"' :: k ++ '"' :: ':' :: l.gap ++ write l (depth + 1) x ++
      writeMembers l depth xs

def writeItems (l : Layout) (depth : Nat) : List Json → Text
  | [] => l.line depth ++ [']']
  | x :: xs => ',' :: l.line (depth + 1) ++ write l (depth + 1) x ++ writeItems l depth xs

def writeMembers (l : Layout) (depth : Nat) : List (Text × Json) → Text
  | [] => l.line depth ++ ['\x7d']
  | (k, x) :: xs =>
    ',' :: l.line (depth + 1) ++ '"' :: k ++ '"' :: ':' :: l.gap ++ write l (depth + 1) x ++
      writeMembers l depth xs

end

def compact (j : Json) : Text := j.write .compact 0

def pretty (j : Json) : Text := j.write .pretty 0

end Triage.Json
