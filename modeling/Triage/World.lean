import Triage.Path
import Triage.SortedMap
import Triage.Text.Decimal
import Triage.Text.Utf8

set_option autoImplicit false

namespace Triage

inductive IoError where
  | notFound
  | permissionDenied
  | notADirectory
  | isADirectory
  | nameTooLong
  | notUtf8
  | nulInPath
  | nulInArgument
  deriving DecidableEq, Repr

namespace IoError

def message : IoError → Text
  | .notFound => "No such file or directory (os error 2)".toList
  | .permissionDenied => "Permission denied (os error 13)".toList
  | .notADirectory => "Not a directory (os error 20)".toList
  | .isADirectory => "Is a directory (os error 21)".toList
  | .nameTooLong => "File name too long (os error 36)".toList
  | .notUtf8 => "stream did not contain valid UTF-8".toList
  | .nulInPath => "file name contained an unexpected NUL byte".toList
  | .nulInArgument => "nul byte found in provided data".toList

end IoError

def textOf (bs : Bytes) : Except IoError Text :=
  match Utf8.strict bs with
  | some t => .ok t
  | none => .error .notUtf8

inductive Node where
  | file (content : Bytes)
  | directory
  deriving DecidableEq

/-- Files and directories below the root, by the segments of their paths. -/
abbrev Tree := SortedMap (List Text) Node

namespace Tree

/-- The root is a directory. -/
def node? (t : Tree) (place : List Text) : Option Node :=
  if place = [] then some .directory else t.get? place

/-- Follows segments from a place. Every segment asks for a directory to start from, and a step up
from the root stays there. -/
def walk (t : Tree) : List Text → List Text → Except IoError (List Text)
  | place, [] => .ok place
  | place, s :: r =>
    match t.node? place with
    | none => .error .notFound
    | some (.file _) => .error .notADirectory
    | some .directory =>
      if s = [] ∨ s = Path.dot then t.walk place r
      else if s = Path.up then t.walk place.dropLast r
      else if 255 < (Utf8.encode s).length then .error .nameTooLong
      else if (t.node? (place ++ [s])).isSome then t.walk (place ++ [s]) r
      else .error .notFound

def find (t : Tree) (path : Text) : Except IoError (List Text) :=
  if path = [] then .error .notFound
  else if path.contains '\x00' then .error .nulInPath
  else if 4096 ≤ (Utf8.encode path).length then .error .nameTooLong
  else t.walk [] (Text.split '/' path)

def read (t : Tree) (path : Text) : Except IoError Bytes := do
  match t.node? (← t.find path) with
  | some (.file content) => .ok content
  | some .directory => .error .isADirectory
  | none => .error .notFound

/-- Puts a file where a path leads, in the place of the one before; its directory has to be there.
A slash at the end asks for a directory, which is no place for a file. -/
def write (t : Tree) (path : Text) (content : Bytes) : Except IoError Tree := do
  match t.find path with
  | .ok place =>
    match t.node? place with
    | some .directory => .error .isADirectory
    | _ => .ok (t.insert place (.file content))
  | .error .notFound =>
    let segments := Text.split '/' path
    let way := (segments.reverse.dropWhile (· = [])).reverse
    match way.getLast? with
    | none => .error .notFound
    | some name =>
      let place ← t.walk [] way.dropLast
      match t.node? place with
      | some .directory =>
        if way.length < segments.length then .error .isADirectory
        else if name = Path.dot ∨ name = Path.up then .error .notFound
        else .ok (t.insert (place ++ [name]) (.file content))
      | _ => .error .notADirectory
  | .error e => .error e

end Tree

/-- A program to start: its arguments, its directory, and what it gets on its standard input. -/
structure Launch where
  program : Text
  args : List Text
  dir : Text
  input : Option Text
  deriving DecidableEq, Repr

structure Exit where
  code : Option Nat
  stdout : Bytes
  stderr : Bytes
  deriving DecidableEq, Repr

/-- What a launch comes to: how the program ended, the files after it, and the launches that it made
itself. -/
structure Ran where
  exit : Exit
  tree : Tree
  launches : List Launch

structure World where
  tree : Tree
  stdin : Bytes
  currentDir : Except IoError Text
  /-- What a launch comes to, given the files. Its directory is there. -/
  programs : Tree → Launch → Except IoError Ran

namespace World

/-- Only a path that starts in the current directory depends on it. -/
def absolute (w : World) (path : Text) : Except IoError Text := do
  if path = [] ∨ path.head? = some '/' then return path
  return Text.under (← w.currentDir) path

def read (w : World) (path : Text) : Except IoError Bytes := do w.tree.read (← w.absolute path)

def has (w : World) (path : Text) : Bool := (w.absolute path >>= w.tree.find).isOk

def write (w : World) (path : Text) (content : Bytes) : Except IoError World := do
  return { w with tree := ← w.tree.write (← w.absolute path) content }

def canonical (w : World) (path : Text) : Except IoError Text := do
  return Path.render ⟨true, ← w.tree.find (← w.absolute path)⟩

def start (w : World) (l : Launch) : Except IoError Ran := do
  if (l.program :: l.dir :: l.args).any (·.contains '\x00') then throw .nulInArgument
  let place ← w.tree.find (← w.absolute l.dir)
  match w.tree.node? place with
  | some .directory => w.programs w.tree { l with dir := Path.render ⟨true, place⟩ }
  | _ => throw .notADirectory

end World
end Triage
