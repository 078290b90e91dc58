import Tether.Number.Binary64

/-! JSON values as they are kept: whole numbers from -2^63 to below 2^64 stay whole, all other numbers
are binary floating point; an object has each key once, in the order of the keys' characters. -/
namespace Tether

inductive Json
  | null
  | bool (value : Bool)
  | whole (value : Int)
  | real (value : Binary64)
  | str (value : String)
  | array (items : List Json)
  | object (fields : List (String × Json))
deriving Repr, Inhabited

namespace Json

/-- Puts a field in its place by key; a field of that key is replaced. -/
def insertField {α : Type} (key : String) (value : α) : List (String × α) → List (String × α)
  | [] => [(key,value)]
  | (k,v) :: rest =>
    if key < k then (key,value) :: (k,v) :: rest
    else if key = k then (key,value) :: rest
    else (k,v) :: insertField key value rest

/-- An object from fields in any order, the last of each key kept. -/
def ofFields (fields : List (String × Json)) : Json :=
  .object (fields.foldl (fun found (k,v) => insertField k v found) [])

def field? (key : String) : Json → Option Json
  | .object fields => (fields.find? fun (k,_) => k == key).map Prod.snd
  | _ => none

mutual
def beq : Json → Json → Bool
  | .null, .null => true
  | .bool a, .bool b => a == b
  | .whole a, .whole b => a == b
  | .real a, .real b => a == b
  | .str a, .str b => a == b
  | .array a, .array b => beqItems a b
  | .object a, .object b => beqFields a b
  | _, _ => false

def beqItems : List Json → List Json → Bool
  | [], [] => true
  | a :: as, b :: bs => beq a b && beqItems as bs
  | _, _ => false

def beqFields : List (String × Json) → List (String × Json) → Bool
  | [], [] => true
  | (k,a) :: as, (l,b) :: bs => k == l && beq a b && beqFields as bs
  | _, _ => false
end

instance : BEq Json := ⟨beq⟩

end Json
end Tether
