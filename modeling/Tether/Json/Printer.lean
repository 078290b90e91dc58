import Tether.Json.Value
import Tether.Number.Shortest
import Tether.Text.Hex

/-! The compact text of a JSON value: no blanks, control characters escaped, every other character as
it is, and floating point in its shortest form with at least one decimal place. -/
namespace Tether.Json

/-- Positional from 10^-5 to below 10^16. -/
def realLayout : Shortest.Layout := ⟨-5,16⟩

def escape (c : Char) : List Char :=
  if c = '"' then ['\\','"']
  else if c = '\\' then ['\\','\\']
  else if c = '\n' then ['\\','n']
  else if c = '\r' then ['\\','r']
  else if c = '\t' then ['\\','t']
  else if c = '\x08' then ['\\','b']
  else if c = '\x0c' then ['\\','f']
  else if c.toNat < 32 then ['\\','u','0','0'] ++ Hex.encodeChars [UInt8.ofNat c.toNat]
  else [c]

def quoted (text : String) : List Char := '"' :: (text.toList.flatMap escape ++ ['"'])

/-- A number that is none, or is infinite, is written as null. -/
def realChars : Binary64 → List Char
  | .finite s m e => Shortest.render realLayout s m e
  | _ => "null".toList

/-- Each part followed by a comma, but for the last one. -/
def commaSeparated : List (List Char) → List Char
  | [] => []
  | [part] => part
  | part :: rest => part ++ ',' :: commaSeparated rest

mutual
def chars : Json → List Char
  | .null => "null".toList
  | .bool b => if b then "true".toList else "false".toList
  | .whole n => (toString n).toList
  | .real x => realChars x
  | .str s => quoted s
  | .array items => '[' :: (commaSeparated (itemChars items) ++ [']'])
  | .object fields => '{' :: (commaSeparated (fieldChars fields) ++ ['}'])

def itemChars : List Json → List (List Char)
  | [] => []
  | item :: rest => chars item :: itemChars rest

def fieldChars : List (String × Json) → List (List Char)
  | [] => []
  | (key,value) :: rest => (quoted key ++ ':' :: chars value) :: fieldChars rest
end

def print (value : Json) : String := String.ofList value.chars

def size (value : Json) : Nat := value.print.utf8ByteSize

end Tether.Json
