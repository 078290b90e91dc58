import Tether.Text.Hex
import Tether.Toml.Value

/-! Strings, numbers, dates and times of TOML. -/
namespace Tether.Toml

abbrev Reader (α : Type) := List Char → Except Fault (α × List Char)

def refuse {α : Type} : Except Fault α := .error .malformed

def isBlank (c : Char) : Bool := c = ' ' || c = '\t'

def skipBlanks (text : List Char) : List Char := text.dropWhile isBlank

/-- What strings and comments hold as it stands: the tab, and every character that is no control. -/
def isPlain (c : Char) : Bool := c = '\t' || (0x20 ≤ c.toNat && c.toNat ≠ 0x7F)

/-- The text behind a line end, if the text starts with one. -/
def lineEnd? : List Char → Option (List Char)
  | '\n' :: rest => some rest
  | '\r' :: '\n' :: rest => some rest
  | _ => none

/-! ### Strings -/

/-- The character with a number of so many hexadecimal digits. -/
def numbered (size : Nat) : Reader Char := fun text =>
  let digits := text.take size
  match digits.mapM Hex.digitValue with
  | none => refuse
  | some values =>
    let n := values.foldl (fun n d => n * 16 + d) 0
    if digits.length = size ∧ n.isValidChar then .ok (Char.ofNat n,text.drop size) else refuse

def escape : Reader Char
  | 'b' :: rest => .ok ('\x08',rest)
  | 't' :: rest => .ok ('\t',rest)
  | 'n' :: rest => .ok ('\n',rest)
  | 'f' :: rest => .ok ('\x0c',rest)
  | 'r' :: rest => .ok ('\r',rest)
  | '"' :: rest => .ok ('"',rest)
  | '\\' :: rest => .ok ('\\',rest)
  | 'u' :: rest => numbered 4 rest
  | 'U' :: rest => numbered 8 rest
  | _ => refuse

/-- Strings with single marks have no escapes. -/
def escapes (mark : Char) : Bool := mark = '"'

/-- The rest of a string on one line; `done` is what was read, last character first. -/
def lineOnto (mark : Char) (done : List Char) : Nat → Reader String
  | 0, _ => refuse
  | _ + 1, [] => refuse
  | fuel + 1, c :: rest =>
    if c = mark then .ok (String.ofList done.reverse,rest)
    else if c = '\\' ∧ escapes mark then do
      let (c,rest) ← escape rest
      lineOnto mark (c :: done) fuel rest
    else if isPlain c then lineOnto mark (c :: done) fuel rest
    else refuse

def lineString (mark : Char) : Reader String := fun text => lineOnto mark [] (text.length + 1) text

def skipSpace : List Char → List Char
  | ' ' :: rest => skipSpace rest
  | '\t' :: rest => skipSpace rest
  | '\n' :: rest => skipSpace rest
  | '\r' :: '\n' :: rest => skipSpace rest
  | text => text

/-- The rest of a string over several lines. Up to two marks in front of the closing three belong to
the text; a backslash at the end of a line takes away all space up to the next word. -/
def blockOnto (mark : Char) (done : List Char) : Nat → Reader String
  | 0, _ => refuse
  | _ + 1, [] => refuse
  | fuel + 1, c :: rest =>
    if [mark,mark,mark].isPrefixOf (c :: rest) then
      let extra := ((rest.drop 2).takeWhile (· = mark)).take 2
      .ok (String.ofList (done.reverse ++ extra),rest.drop (2 + extra.length))
    else match lineEnd? (c :: rest) with
      | some rest => blockOnto mark ('\n' :: done) fuel rest
      | none =>
        if c = '\\' ∧ escapes mark then
          match lineEnd? (skipBlanks rest) with
          | some rest => blockOnto mark done fuel (skipSpace rest)
          | none => do
            let (c,rest) ← escape rest
            blockOnto mark (c :: done) fuel rest
        else if isPlain c then blockOnto mark (c :: done) fuel rest
        else refuse

/-- A string after its first mark. Three marks open a text over several lines, whose first line end
does not count if nothing precedes it. -/
def string (mark : Char) : Reader String := fun text =>
  if [mark,mark].isPrefixOf text then
    let text := text.drop 2
    let text := (lineEnd? text).getD text
    blockOnto mark [] (text.length + 1) text
  else lineString mark text

/-! ### Numbers -/

def digit? (base : Nat) (c : Char) : Option Nat := (Hex.digitValue c).filter (· < base)

/-- Digits after the first one, with single underscores between digits. -/
def moreDigits (base : Nat) : List Char → List Nat × List Char
  | [] => ([],[])
  | '_' :: c :: rest =>
    match digit? base c with
    | some d => let (ds,tail) := moreDigits base rest; (d :: ds,tail)
    | none => ([],'_' :: c :: rest)
  | c :: rest =>
    match digit? base c with
    | some d => let (ds,tail) := moreDigits base rest; (d :: ds,tail)
    | none => ([],c :: rest)

def digits (base : Nat) : Reader (List Nat)
  | [] => refuse
  | c :: rest =>
    match digit? base c with
    | some d => let (ds,tail) := moreDigits base rest; .ok (d :: ds,tail)
    | none => refuse

/-- Decimal digits that do not go on after a leading zero. -/
def decimal : Reader (List Nat)
  | '0' :: rest => .ok ([0],rest)
  | text => digits 10 text

def valueOf (base : Nat) (ds : List Nat) : Nat := ds.foldl (fun n d => n * base + d) 0

def wholeLimit : Nat := UInt64.size / 2

/-- Whole numbers have 64 bits, one of them for the sign. -/
def wholeOf (negative : Bool) (n : Nat) : Except Fault Value :=
  if negative then if n ≤ wholeLimit then .ok (.whole (-n)) else refuse
  else if n < wholeLimit then .ok (.whole n) else refuse

/-- A decimal in binary. One above the range is refused, one below it counts as infinite. -/
def realOf (negative : Bool) (ds : List Nat) (exponent : Int) : Except Fault Value :=
  let n := valueOf 10 ds
  let places := ds.length + exponent
  if n = 0 ∨ places < -400 then .ok (.real (.finite negative 0 Binary64.leastExponent))
  else
    let zeros := ds.length - (Nat.toDigits 10 n).length
    let x : Binary64 :=
      if (400 : Int) < places - zeros then .infinite negative
      else if 0 ≤ exponent then .ofQuotient negative (n * Nat.pow 10 exponent.toNat) 1
      else .ofQuotient negative n (Nat.pow 10 exponent.natAbs)
    if x = .infinite false then refuse else .ok (.real x)

def sign : List Char → Bool × List Char
  | '+' :: rest => (false,rest)
  | '-' :: rest => (true,rest)
  | text => (false,text)

/-- The end of a number with a point or an exponent, after the letter of the exponent. -/
def exponentPart (negative : Bool) (ds : List Nat) (places : Nat) : Reader Value := fun text => do
  let (minus,text) := sign text
  let (es,rest) ← digits 10 text
  let e : Int := valueOf 10 es
  .ok (← realOf negative ds ((if minus then -e else e) - places),rest)

def isExponentMark (c : Char) : Bool := c = 'e' || c = 'E'

/-- A number after its digits in front of the point. -/
def numberEnd (negative : Bool) (ds : List Nat) : Reader Value
  | '.' :: text => do
    let (fs,rest) ← digits 10 text
    match rest with
    | c :: tail =>
      if isExponentMark c then exponentPart negative (ds ++ fs) fs.length tail
      else .ok (← realOf negative (ds ++ fs) (-fs.length),rest)
    | [] => .ok (← realOf negative (ds ++ fs) (-fs.length),[])
  | c :: tail =>
    if isExponentMark c then exponentPart negative ds 0 tail
    else do .ok (← wholeOf negative (valueOf 10 ds),c :: tail)
  | [] => do .ok (← wholeOf negative (valueOf 10 ds),[])

def based (base : Nat) : Reader Value := fun text => do
  let (ds,rest) ← digits base text
  .ok (← wholeOf false (valueOf base ds),rest)

/-- A number; only one without a sign may have another base than ten. -/
def number : Reader Value
  | '0' :: 'x' :: rest => based 16 rest
  | '0' :: 'o' :: rest => based 8 rest
  | '0' :: 'b' :: rest => based 2 rest
  | text =>
    let (negative,body) := sign text
    match body with
    | 'i' :: 'n' :: 'f' :: rest => .ok (.real (.infinite negative),rest)
    | 'n' :: 'a' :: 'n' :: rest => .ok (.real .nan,rest)
    | _ => do
      let (ds,rest) ← decimal body
      numberEnd negative ds rest

/-! ### Dates and times -/

def field (size low high : Nat) (text : List Char) : Option (Nat × List Char) := do
  let ds ← (text.take size).mapM (digit? 10)
  let n := valueOf 10 ds
  if ds.length = size ∧ low ≤ n ∧ n ≤ high then some (n,text.drop size) else none

def mark (c : Char) : List Char → Option (List Char)
  | [] => none
  | d :: rest => if d = c then some rest else none

def isLeap (year : Nat) : Bool := year % 4 = 0 && (year % 100 ≠ 0 || year % 400 = 0)

def daysIn (year month : Nat) : Nat :=
  if month = 2 then if isLeap year then 29 else 28
  else if month ∈ [4,6,9,11] then 30
  else 31

def date (text : List Char) : Option (List Char) := do
  let (year,text) ← field 4 0 9999 text
  let (month,text) ← field 2 1 12 (← mark '-' text)
  let (_,text) ← field 2 1 (daysIn year month) (← mark '-' text)
  some text

/-- The text behind a time of day, with or without a fraction of a second. -/
def time (text : List Char) : Option (List Char) := do
  let (_,text) ← field 2 0 23 text
  let (_,text) ← field 2 0 59 (← mark ':' text)
  let (_,text) ← field 2 0 60 (← mark ':' text)
  match text with
  | '.' :: rest =>
    let tail := rest.dropWhile Char.isDigit
    some (if tail.length < rest.length then tail else text)
  | _ => some text

/-- The text behind a distance from universal time, if there is one. -/
def zone (text : List Char) : List Char :=
  match text with
  | c :: rest =>
    if c = 'Z' ∨ c = 'z' then rest
    else if c = '+' ∨ c = '-' then
      let tail := do
        let (_,rest) ← field 2 0 23 rest
        let (_,rest) ← field 2 0 59 (← mark ':' rest)
        some rest
      tail.getD text
    else text
  | [] => []

def momentEnd (text : List Char) : Option (List Char) :=
  match date text with
  | none => time text
  | some rest =>
    match rest with
    | c :: tail =>
      if c = 'T' ∨ c = 't' ∨ c = ' ' then some ((time tail).elim rest zone) else some rest
    | [] => some []

/-! ### All scalars -/

def startsNumber (c : Char) : Bool := c = '+' || c = '-' || c.isDigit || c = 'i' || c = 'n'

def scalar : Reader Value
  | 't' :: 'r' :: 'u' :: 'e' :: rest => .ok (.flag true,rest)
  | 'f' :: 'a' :: 'l' :: 's' :: 'e' :: rest => .ok (.flag false,rest)
  | [] => refuse
  | c :: rest =>
    if c = '"' ∨ c = '\'' then do
      let (s,rest) ← string c rest
      .ok (.text s,rest)
    else if startsNumber c then
      match momentEnd (c :: rest) with
      | some tail =>
        .ok (.moment (String.ofList ((c :: rest).take (rest.length + 1 - tail.length))),tail)
      | none => number (c :: rest)
    else refuse

end Tether.Toml
