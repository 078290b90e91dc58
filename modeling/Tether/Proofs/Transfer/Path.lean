import Mathlib.Tactic.Common
import Tether.Transfer.Path

/-! What a path ends with, told by its characters alone. Its file name is the name that stands at the end, after a
slash or at the beginning, with nothing behind it but slashes and single dots. There is none if the path ends
with two dots in this way, or says nothing but where to begin. -/
namespace Tether.Path

variable {path front rest post : List Char} {name : Name}

/-! ### Splitting -/

/-- A path put behind another one: a path from the root stands for itself, and a slash goes between the two if
none is there. -/
def push (directory path : List Char) : List Char :=
  if path.head? = some '/' then path
  else if directory = [] ∨ directory.getLast? = some '/' then directory ++ path
  else directory ++ '/' :: path

/-- What may stand behind the last name: slashes, and single dots between them. -/
inductive Trailing : List Char → Prop
  | nil : Trailing []
  | slash (rest : List Char) : Trailing rest → Trailing ('/' :: rest)
  | here (rest : List Char) : Trailing rest → Trailing ('/' :: '.' :: rest)

inductive Ends (name : Name) : List Char → Prop
  | whole (post : List Char) : Trailing post → Ends name (name ++ post)
  | below (front post : List Char) : Trailing post → Ends name (front ++ '/' :: (name ++ post))

/-- A name that says something and stands between two slashes. -/
structure Says (name : Name) : Prop where
  ne_nil : name ≠ []
  ne_here : name ≠ here
  noSlash : '/' ∉ name

/-- The name of an entry of a directory. -/
structure Proper (name : Name) : Prop extends Says name where
  ne_up : name ≠ up

/-- However far up a path leads, and wherever it begins, the name at its end is that of a file. -/
example : fileName? "/../.././/etc//passwd/./".toList = some "passwd".toList := by decide

end Tether.Path
