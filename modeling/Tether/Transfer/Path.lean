/-! Names in a tree of directories, separated by slashes. Empty names and single dots say nothing;
two dots lead one level up and are no name of a file. -/
namespace Tether.Path

abbrev Name := List Char

def here : Name := ['.']
def up : Name := ['.','.']

def split : List Char → List Name
  | [] => [[]]
  | c :: rest =>
    if c = '/' then [] :: split rest
    else match split rest with
      | [] => [[c]]
      | name :: names => (c :: name) :: names

def steps (path : List Char) : List Name :=
  (split path).filter fun name => name != [] && name != here

/-- The last step, unless there is none or it leads up. -/
def fileName? (path : List Char) : Option Name :=
  match (steps path).getLast? with
  | some name => if name = up then none else some name
  | none => none

def join (directory : String) (path : String) : String := directory ++ "/" ++ path

end Tether.Path
