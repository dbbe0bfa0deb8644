/-!
# Files by path

A path is a row of names with slashes between them. Empty names and the name `.` lead nowhere, so
several paths name the same file; a path that ends in one of them asks for a directory and names no
file.
-/
namespace Sprog

structure Path where
  /-- Whether the path starts at the root and not in the working directory. -/
  absolute : Bool
  names : List (List Char)
  deriving DecidableEq, Repr

namespace Path

/-- The parts of a text between its slashes. -/
def parts : List Char → List (List Char)
  | [] => [[]]
  | c :: cs =>
    match parts cs with
    | [] => [[c]]
    | first :: rest => if c = '/' then [] :: first :: rest else (c :: first) :: rest

/-- Whether a part of a path leads nowhere. -/
def isIdle (part : List Char) : Bool :=
  part = [] ∨ part = ['.']

/-- No path has this many bytes. -/
def byteLimit : Nat := 4096

/-- The path that a text writes, if it may name a file. -/
def ofText? (text : String) : Option Path :=
  let all := parts text.toList
  if byteLimit ≤ text.utf8ByteSize ∨ all.getLast?.all isIdle then none
  else some ⟨text.toList.head? = some '/', all.filter (!isIdle ·)⟩

end Path

/-- Files with the paths at which they can be read. -/
abbrev Files := List (String × ByteArray)

/-- The content of the file at a path. -/
def Files.read? (files : Files) (path : String) : Option ByteArray := do
  let p ← Path.ofText? path
  let file ← files.find? fun f => Path.ofText? f.1 = some p
  return file.2

example : Path.ofText? ".//./a" = Path.ofText? "a" ∧ Path.ofText? "a/" = none ∧
    Path.ofText? "/a" ≠ Path.ofText? "a" := by
  decide

end Sprog
