import Tether.Json.Value
import Tether.Text.Hex

/-! Reading JSON text from front to back. A reader consumes a value of some shape, so a document is
refused at the first place where it cannot be what is asked for: its text is malformed, it ends too
early, or it holds a value of another shape. -/
namespace Tether.Json

inductive Fault
  | malformed
  | mismatched
  | unfinished
deriving DecidableEq, Repr

abbrev Reader (α : Type) := List Char → Except Fault (α × List Char)

def isBlank (c : Char) : Bool := c = ' ' || c = '\n' || c = '\t' || c = '\r'

def skipBlanks (text : List Char) : List Char := text.dropWhile isBlank

/-- Arrays and objects may lie inside one another up to this number less one. -/
def depthLimit : Nat := 128

def isDigit (c : Char) : Bool := '0' ≤ c && c ≤ '9'

def digitOf (c : Char) : Nat := c.toNat - 48

/-! ### Words and strings -/

def word : List Char → List Char → Except Fault (List Char)
  | [], text => .ok text
  | _ :: _, [] => .error .unfinished
  | w :: ws, c :: rest => if w = c then word ws rest else .error .malformed

def codeUnit : Reader Nat
  | a :: b :: c :: d :: rest =>
    match Hex.digitValue a, Hex.digitValue b, Hex.digitValue c, Hex.digitValue d with
    | some a, some b, some c, some d => .ok (((a * 16 + b) * 16 + c) * 16 + d,rest)
    | _, _, _, _ => .error .malformed
  | _ => .error .unfinished

/-- The character of a `\u` escape, whose second half follows a leading surrogate. -/
def unicodeEscape : Reader Char := fun text => do
  let (high,rest) ← codeUnit text
  if 0xDC00 ≤ high ∧ high ≤ 0xDFFF then .error .malformed
  else if high < 0xD800 ∨ 0xDBFF < high then .ok (Char.ofNat high,rest)
  else match rest with
    | [] => .error .unfinished
    | '\\' :: [] => .error .unfinished
    | '\\' :: 'u' :: rest =>
      let (low,rest) ← codeUnit rest
      if low < 0xDC00 ∨ 0xDFFF < low then .error .malformed
      else .ok (Char.ofNat (0x10000 + (high - 0xD800) * 0x400 + (low - 0xDC00)),rest)
    | _ => .error .malformed

def simpleEscape (c : Char) : Option Char :=
  if c = '"' ∨ c = '\\' ∨ c = '/' then some c
  else if c = 'b' then some '\x08'
  else if c = 'f' then some '\x0c'
  else if c = 'n' then some '\n'
  else if c = 'r' then some '\r'
  else if c = 't' then some '\t'
  else none

/-- The rest of a string after its opening quote; `done` is what was read, last character first. -/
def stringOnto (done : List Char) : Nat → Reader String
  | 0, _ => .error .unfinished
  | _ + 1, [] => .error .unfinished
  | fuel + 1, c :: rest =>
    if c = '"' then .ok (String.ofList done.reverse,rest)
    else if c = '\\' then
      match rest with
      | [] => .error .unfinished
      | 'u' :: rest => do
        let (c,rest) ← unicodeEscape rest
        stringOnto (c :: done) fuel rest
      | e :: rest => match simpleEscape e with
        | some c => stringOnto (c :: done) fuel rest
        | none => .error .malformed
    else if c.toNat < 32 then .error .malformed
    else stringOnto (c :: done) fuel rest

def stringBody : Reader String := fun text => stringOnto [] (text.length + 1) text

/-! ### Numbers -/

/-- A number as written, before a range is asked of it. -/
inductive Number
  | natural (n : Nat)
  | negative (n : Nat)
  | real (x : Binary64)
deriving Repr

def wordLimit : Nat := UInt64.size

/-- `significand * 10^exponent` in steps that round: one product or quotient by a power of ten up to
10^308, after quotients by 10^308 for exponents below that. -/
def realFrom (negative : Bool) (significand : Nat) (exponent : Int) : Except Fault Binary64 :=
  let sign (x : Binary64) := if negative then x.neg else x
  let f := Binary64.ofNat significand
  if significand = 0 then .ok (sign f)
  else if 0 ≤ exponent then
    if 308 < exponent then .error .malformed
    else match f.mul (.ofNat (Nat.pow 10 exponent.toNat)) with
      | .infinite _ => .error .malformed
      | x => .ok (sign x)
  else shrink sign f exponent.natAbs (exponent.natAbs / 308 + 1)
where
  shrink (sign : Binary64 → Binary64) (f : Binary64) (n : Nat) : Nat → Except Fault Binary64
    | 0 => .ok (sign f)
    | fuel + 1 =>
      if n ≤ 308 then .ok (sign (f.div (.ofNat (Nat.pow 10 n))))
      else match f with
        | .finite _ 0 _ => .ok (sign f)
        | f => shrink sign (f.div (.ofNat (Nat.pow 10 308))) (n - 308) fuel

/-- The digits of an exponent; beyond 2^31 a significand other than zero is out of range, or
vanishes. -/
def exponentPart (negative : Bool) (significand : Nat) (start : Int) :
    List Char → Except Fault (Binary64 × List Char)
  | [] => .error .unfinished
  | c :: rest =>
    let minus := c = '-'
    let digits := if c = '-' ∨ c = '+' then rest else c :: rest
    match digits with
    | [] => .error .unfinished
    | d :: _ =>
      if !isDigit d then .error .malformed
      else
        let run := digits.takeWhile isDigit
        let rest := digits.dropWhile isDigit
        let e := run.foldl (fun n d => if n < 1 <<< 40 then n * 10 + digitOf d else n) 0
        let zero : Binary64 := .finite negative 0 Binary64.leastExponent
        if 1 <<< 31 ≤ e then
          if significand ≠ 0 ∧ !minus then .error .malformed else .ok (zero,rest)
        else do
          let x ← realFrom negative significand (if minus then start - e else start + e)
          .ok (x,rest)

def afterDigits (negative : Bool) (significand : Nat) (exponent : Int) (text : List Char) :
    Except Fault (Binary64 × List Char) :=
  match text with
  | c :: rest =>
    if c = 'e' ∨ c = 'E' then exponentPart negative significand exponent rest
    else do .ok (← realFrom negative significand exponent,text)
  | [] => do .ok (← realFrom negative significand exponent,text)

/-- Takes digits while the significand fits a word: the significand, the digits taken, the rest. -/
def digitsOnto (significand taken : Nat) : List Char → Nat × Nat × List Char
  | [] => (significand,taken,[])
  | c :: rest =>
    if isDigit c ∧ significand * 10 + digitOf c < wordLimit then
      digitsOnto (significand * 10 + digitOf c) (taken + 1) rest
    else (significand,taken,c :: rest)

/-- The places after a point. Digits that no longer fit are passed over. -/
def fraction (negative : Bool) (significand : Nat) (exponent : Int) (text : List Char) :
    Except Fault (Binary64 × List Char) :=
  match text with
  | [] => .error .unfinished
  | c :: _ =>
    if !isDigit c then .error .malformed
    else
      let (significand,taken,rest) := digitsOnto significand 0 text
      afterDigits negative significand (exponent - taken) (rest.dropWhile isDigit)

def number (negative : Bool) : Reader Number
  | [] => .error .unfinished
  | c :: rest =>
    if !isDigit c then .error .malformed
    else if c = '0' ∧ (rest.head?.map isDigit).getD false then .error .malformed
    else
      let (significand,_,tail) := digitsOnto 0 0 (c :: rest)
      let extra := (tail.takeWhile isDigit).length
      match tail.dropWhile isDigit with
      | '.' :: tail => do
        let (x,rest) ← fraction negative significand extra tail
        .ok (.real x,rest)
      | tail =>
        let marked := match tail with
          | e :: _ => e = 'e' || e = 'E'
          | [] => false
        if marked || extra ≠ 0 then do
          let (x,rest) ← afterDigits negative significand extra tail
          .ok (.real x,rest)
        else if negative then
          if significand = 0 ∨ UInt64.size / 2 < significand then
            .ok (.real (Binary64.ofNat significand).neg,tail)
          else .ok (.negative significand,tail)
        else .ok (.natural significand,tail)

def Number.toJson : Number → Json
  | .natural n => .whole n
  | .negative n => .whole (-n)
  | .real x => .real x

/-! ### Arrays and objects -/

/-- After the opening bracket: whether another element follows, and the text from it on. -/
def nextItem (first : Bool) (text : List Char) : Except Fault (Option (List Char)) :=
  match skipBlanks text with
  | [] => .error .unfinished
  | ']' :: _ => .ok none
  | c :: rest =>
    if first then .ok (some (c :: rest))
    else if c = ',' then
      match skipBlanks rest with
      | [] => .error .unfinished
      | ']' :: _ => .error .malformed
      | rest => .ok (some rest)
    else .error .malformed

/-- The closing bracket, where nothing else may follow any more. -/
def closeArray (text : List Char) : Except Fault (List Char) :=
  match skipBlanks text with
  | [] => .error .unfinished
  | ']' :: rest => .ok rest
  | _ => .error .malformed

/-- The key of the next field, if another one follows, and the text after the key. -/
def nextKey (first : Bool) (text : List Char) : Except Fault (Option (String × List Char)) :=
  let key (text : List Char) : Except Fault (Option (String × List Char)) :=
    match text with
    | '"' :: rest => do
      let (key,rest) ← stringBody rest
      .ok (some (key,rest))
    | [] => .error .unfinished
    | _ => .error .malformed
  match skipBlanks text with
  | [] => .error .unfinished
  | '}' :: _ => .ok none
  | c :: rest =>
    if first then key (c :: rest)
    else if c = ',' then key (skipBlanks rest)
    else .error .malformed

def colon (text : List Char) : Except Fault (List Char) :=
  match skipBlanks text with
  | [] => .error .unfinished
  | ':' :: rest => .ok rest
  | _ => .error .malformed

def closeObject (text : List Char) : Except Fault (List Char) :=
  match skipBlanks text with
  | [] => .error .unfinished
  | '}' :: rest => .ok rest
  | _ => .error .malformed

/-- Elements read one after the other onto those found, the last one first. -/
def itemsOnto {α : Type} (item : Reader α) (found : List α) (first : Bool) : Nat → Reader (List α)
  | 0, _ => .error .unfinished
  | fuel + 1, text => do
    match ← nextItem first text with
    | none => .ok (found.reverse,← closeArray text)
    | some text =>
      let (a,rest) ← item text
      itemsOnto item (a :: found) false fuel rest

def arrayBody {α : Type} (item : Reader α) : Reader (List α) :=
  fun text => itemsOnto item [] true (text.length + 1) text

/-- Fields folded into a state, each read by the reader that its key and the state choose. -/
def fieldsInto {σ : Type} (field : σ → String → Reader σ) (state : σ) (first : Bool) :
    Nat → Reader σ
  | 0, _ => .error .unfinished
  | fuel + 1, text => do
    match ← nextKey first text with
    | none => .ok (state,← closeObject text)
    | some (key,rest) =>
      let (state,rest) ← field state key rest
      fieldsInto field state false fuel rest

def objectBody {σ : Type} (field : σ → String → Reader σ) (state : σ) : Reader σ :=
  fun text => fieldsInto field state true (text.length + 1) text

/-- A value of any shape, arrays and objects at most `depth - 1` deep. -/
def value : Nat → Reader Json
  | 0, _ => .error .malformed
  | depth + 1, text =>
    match skipBlanks text with
    | [] => .error .unfinished
    | 'n' :: rest => do .ok (.null,← word "ull".toList rest)
    | 't' :: rest => do .ok (.bool true,← word "rue".toList rest)
    | 'f' :: rest => do .ok (.bool false,← word "alse".toList rest)
    | '-' :: rest => do
      let (n,rest) ← number true rest
      .ok (n.toJson,rest)
    | '"' :: rest => do
      let (s,rest) ← stringBody rest
      .ok (.str s,rest)
    | '[' :: rest =>
      if depth = 0 then .error .malformed
      else do
        let (items,rest) ← arrayBody (value depth) rest
        .ok (.array items,rest)
    | '{' :: rest =>
      if depth = 0 then .error .malformed
      else do
        let (fields,rest) ← objectBody (fun found key text => do
          let (v,rest) ← value depth (← colon text)
          .ok (insertField key v found,rest)) [] rest
        .ok (.object fields,rest)
    | c :: rest =>
      if isDigit c then do
        let (n,rest) ← number false (c :: rest)
        .ok (n.toJson,rest)
      else .error .malformed

def atEnd {α : Type} : α × List Char → Except Fault α
  | (a,rest) => if (skipBlanks rest).isEmpty then .ok a else .error .malformed

def read {α : Type} (reader : Reader α) (text : String) : Except Fault α := do
  atEnd (← reader text.toList)

def parse (text : String) : Except Fault Json := read (value depthLimit) text

end Tether.Json
