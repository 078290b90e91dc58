import Tether.Number.Binary64

/-! TOML values, and how the lines of a document come together in tables. A table remembers how it came
about, since that decides who may still add to it: a header may name it once, and a dotted key may add
only to tables that no header has named. -/
namespace Tether.Toml

/-- Why a document, or a value in it, is refused. -/
inductive Fault
  | malformed
  | redefined
  | mismatched
deriving DecidableEq, Repr

/-- What made a table: its own header, a longer header, a dotted key, or braces. -/
inductive Origin
  | header
  | path
  | dotted
  | braces
deriving DecidableEq, Repr

inductive Value
  | text (s : String)
  | whole (n : Int)
  | real (x : Binary64)
  | flag (b : Bool)
  /-- A date, a time of day, or both, as written. -/
  | moment (s : String)
  | array (items : List Value)
  | table (origin : Origin) (fields : List (String × Value))
  /-- Tables under one doubled header, each closed by the next. -/
  | tables (elements : List (List (String × Value)))
deriving Repr, Inhabited

abbrev Fields := List (String × Value)

/-- Puts a field in the place of the one with its key, or else behind all others. -/
def put (key : String) (value : Value) : Fields → Fields
  | [] => [(key,value)]
  | (k,v) :: rest => if k = key then (key,value) :: rest else (k,v) :: put key value rest

/-- Changes the table at the end of a path, and makes the tables that are missing on the way. The
latest of the tables under a doubled header stands for them all. A way by dots does not pass through
tables that have a header of their own. -/
def within (dots : Bool) (change : Origin → Fields → Except Fault Fields) (origin : Origin) :
    List String → Fields → Except Fault Fields
  | [], fields => change origin fields
  | key :: path, fields => do
    let value ← match fields.lookup key with
      | none => do
        let made := if dots then Origin.dotted else .path
        .ok (.table made (← within dots change made path []))
      | some (.table found inner) =>
        if found = .braces ∨ (dots ∧ found = .header) then .error .redefined
        else do .ok (.table found (← within dots change found path inner))
      | some (.tables elements) => do
        let last ← within dots change .header path (elements.getLastD [])
        .ok (.tables (elements.dropLast ++ [last]))
      | some _ => .error .redefined
    .ok (put key value fields)

/-- Adds a field under a key with dots, or without: then `path` is empty. -/
def assign (path : List String) (key : String) (value : Value) (fields : Fields) :
    Except Fault Fields :=
  within true (fun origin fields =>
    if (origin = .dotted ↔ path.isEmpty) ∨ (fields.lookup key).isSome then .error .redefined
    else .ok (fields ++ [(key,value)])) .header path fields

inductive Line
  | field (path : List String) (key : String) (value : Value)
  | header (path : List String) (key : String)
  | element (path : List String) (key : String)
deriving Repr

/-- A document so far, and the table that fields are added to. -/
structure Document where
  fields : Fields := []
  current : List String := []
deriving Repr, Inhabited

namespace Document

/-- Opens a table, which must be new or known only from longer headers. -/
def openTable (key : String) (fields : Fields) : Except Fault Fields :=
  match fields.lookup key with
  | none => .ok (put key (.table .header []) fields)
  | some (.table .path inner) => .ok (put key (.table .header inner) fields)
  | some _ => .error .redefined

def openElement (key : String) (fields : Fields) : Except Fault Fields :=
  match fields.lookup key with
  | none => .ok (put key (.tables [[]]) fields)
  | some (.tables elements) => .ok (put key (.tables (elements ++ [[]])) fields)
  | some _ => .error .redefined

def add (d : Document) : Line → Except Fault Document
  | .field path key value => do
    let fields ← within false (fun _ fields => assign path key value fields) .header d.current d.fields
    .ok { d with fields }
  | .header path key => do
    .ok ⟨← within false (fun _ fields => openTable key fields) .header path d.fields,path ++ [key]⟩
  | .element path key => do
    .ok ⟨← within false (fun _ fields => openElement key fields) .header path d.fields,path ++ [key]⟩

end Document
end Tether.Toml
