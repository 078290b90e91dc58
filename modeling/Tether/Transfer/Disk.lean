import Tether.Error
import Tether.Transfer.Path

/-! A tree of files and directories. A location is the list of names from the root; the root is always
there, and what lies at a location is kept under it, a later entry in front of an earlier one. -/
namespace Tether

inductive DiskNode
  | file (content : List UInt8)
  | directory
deriving DecidableEq, Repr

abbrev Location := List Path.Name

structure Disk where
  entries : List (Location × DiskNode) := []
deriving DecidableEq, Repr, Inhabited

namespace Disk

/-- The most bytes that a name may have. -/
def nameMax : Nat := 255

def nul : Char := Char.ofNat 0

def get? (d : Disk) (at_ : Location) : Option DiskNode :=
  if at_.isEmpty then some .directory else d.entries.lookup at_

def put (d : Disk) (at_ : Location) (node : DiskNode) : Disk := ⟨(at_,node) :: d.entries⟩

def nameSize (name : Path.Name) : Nat := (String.ofList name).utf8ByteSize

def descend (d : Disk) (at_ : Location) (name : Path.Name) : Except IoFault Location :=
  match d.get? at_ with
  | some .directory =>
    if name = [] ∨ name = Path.here then .ok at_
    else if name = Path.up then .ok at_.dropLast
    else if nameMax < nameSize name then .error .nameTooLong
    else
      let at_ := at_ ++ [name]
      if (d.get? at_).isSome then .ok at_ else .error .notFound
  | some (.file _) => .error .notDirectory
  | none => .error .notFound

def resolve (d : Disk) (path : List Char) : Except IoFault Location :=
  if path.contains nul then .error .nulInPath
  else (Path.split path).foldlM (descend d) []

def read (d : Disk) (path : List Char) : Except IoFault DiskNode := do
  let at_ ← d.resolve path
  match d.get? at_ with
  | some node => .ok node
  | none => .error .notFound

/-- Makes every directory on the way, as far as it is missing. -/
def makeDirectories (d : Disk) (done : Location) : List Path.Name → Except IoFault Disk
  | [] => .ok d
  | name :: rest =>
    let at_ := done ++ [name]
    match d.get? at_ with
    | some .directory => makeDirectories d at_ rest
    | some (.file _) => .error (if rest.isEmpty then .alreadyExists else .notDirectory)
    | none => makeDirectories (d.put at_ .directory) at_ rest

/-- Writes a file into a directory that is there. -/
def write (d : Disk) (directory : Location) (name : Path.Name) (content : List UInt8) :
    Except IoFault Disk :=
  if name.contains nul then .error .nulInPath
  else if nameMax < nameSize name then .error .nameTooLong
  else match d.get? (directory ++ [name]) with
    | some .directory => .error .isDirectory
    | _ => .ok (d.put (directory ++ [name]) (.file content))

/-- The names in a directory with what lies there, each once. -/
def list (d : Disk) (directory : Location) : List (Path.Name × DiskNode) :=
  let names := d.entries.filterMap fun (at_,_) =>
    if at_.dropLast = directory then at_.getLast? else none
  names.eraseDups.filterMap fun name => (d.get? (directory ++ [name])).map (name,·)

end Disk
end Tether
