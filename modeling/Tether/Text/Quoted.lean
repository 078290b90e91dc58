import Tether.Text.Hidden

/-! Text between quotation marks as logs show it: the usual escapes have one letter, and a character
that does not show on its own is written by its number. -/
namespace Tether.Quoted

def number (n : Nat) : String := String.ofList (Nat.toDigits 16 n)

def shown (c : Char) : String :=
  if c = '"' then "\\\""
  else if c = '\\' then "\\\\"
  else if c = '\t' then "\\t"
  else if c = '\n' then "\\n"
  else if c = '\r' then "\\r"
  else if c = '\x00' then "\\0"
  else if Hidden.isHidden c then "\\u\x7b" ++ number c.toNat ++ "\x7d"
  else String.singleton c

def quote (text : String) : String := "\"" ++ String.join (text.toList.map shown) ++ "\""

def list (texts : List String) : String := "[" ++ ", ".intercalate (texts.map quote) ++ "]"

end Tether.Quoted
