import Tether.Json.Reader

/-! Readers that ask for a value of one shape, and the reader that passes over a value of any shape.
A scalar of the wrong shape is read to its end before it is refused; an array or an object is refused
at its first character. What is passed over need not be in any range, and may be nested at will. -/
namespace Tether.Json

/-- Refuses the value at hand for its shape, unless it is malformed before that shows. -/
def refuse {α : Type} : Reader α := fun text =>
  match skipBlanks text with
  | [] => .error .unfinished
  | 'n' :: rest => do let _ ← word "ull".toList rest; .error .mismatched
  | 't' :: rest => do let _ ← word "rue".toList rest; .error .mismatched
  | 'f' :: rest => do let _ ← word "alse".toList rest; .error .mismatched
  | '-' :: rest => do let _ ← number true rest; .error .mismatched
  | '"' :: rest => do let _ ← stringBody rest; .error .mismatched
  | '[' :: _ => .error .mismatched
  | '{' :: _ => .error .mismatched
  | c :: rest =>
    if isDigit c then do let _ ← number false (c :: rest); .error .mismatched
    else .error .malformed

def expectString : Reader String := fun text =>
  match skipBlanks text with
  | '"' :: rest => stringBody rest
  | text => refuse text

def expectBool : Reader Bool := fun text =>
  match skipBlanks text with
  | 't' :: rest => do .ok (true,← word "rue".toList rest)
  | 'f' :: rest => do .ok (false,← word "alse".toList rest)
  | text => refuse text

/-- A natural number below a bound, written without a fraction or an exponent. -/
def expectNatural (bound : Nat) : Reader Nat := fun text =>
  let accept : Number × List Char → Except Fault (Nat × List Char)
    | (.natural n,rest) => if n < bound then .ok (n,rest) else .error .mismatched
    | _ => .error .mismatched
  match skipBlanks text with
  | '-' :: rest => do accept (← number true rest)
  | c :: rest => if isDigit c then do accept (← number false (c :: rest)) else refuse (c :: rest)
  | [] => .error .unfinished

def optional {α : Type} (reader : Reader α) : Reader (Option α) := fun text =>
  match skipBlanks text with
  | 'n' :: rest => do .ok (none,← word "ull".toList rest)
  | text => do
    let (a,rest) ← reader text
    .ok (some a,rest)

def expectArray {α : Type} (item : Reader α) : Reader (List α) := fun text =>
  match skipBlanks text with
  | '[' :: rest => arrayBody item rest
  | text => refuse text

/-! ### Passing over -/

def skipString : Nat → List Char → Except Fault (List Char)
  | 0, _ => .error .unfinished
  | _ + 1, [] => .error .unfinished
  | fuel + 1, c :: rest =>
    if c = '"' then .ok rest
    else if c = '\\' then
      match rest with
      | [] => .error .unfinished
      | 'u' :: rest => do
        let (_,rest) ← codeUnit rest
        skipString fuel rest
      | e :: rest => if (simpleEscape e).isSome then skipString fuel rest else .error .malformed
    else if c.toNat < 32 then .error .malformed
    else skipString fuel rest

def skipDigits (text : List Char) : Except Fault (List Char) :=
  match text with
  | c :: rest => if isDigit c then .ok (rest.dropWhile isDigit) else .error .malformed
  | [] => .error .malformed

def skipExponent (text : List Char) : Except Fault (List Char) :=
  match text with
  | c :: rest =>
    if c = 'e' ∨ c = 'E' then
      match rest with
      | s :: digits => if s = '+' ∨ s = '-' then skipDigits digits else skipDigits rest
      | [] => .error .malformed
    else .ok text
  | [] => .ok []

def skipNumber (text : List Char) : Except Fault (List Char) := do
  let rest ← skipDigits text
  if text.head? = some '0' ∧ ((text.drop 1).head?.map isDigit).getD false then .error .malformed
  else match rest with
    | '.' :: rest => do skipExponent (← skipDigits rest)
    | rest => skipExponent rest

def skipValue : Nat → List Char → Except Fault (List Char)
  | 0, _ => .error .malformed
  | depth + 1, text =>
    match skipBlanks text with
    | [] => .error .unfinished
    | 'n' :: rest => word "ull".toList rest
    | 't' :: rest => word "rue".toList rest
    | 'f' :: rest => word "alse".toList rest
    | '-' :: rest => skipNumber rest
    | '"' :: rest => skipString (rest.length + 1) rest
    | '[' :: rest => do
      let (_,rest) ← arrayBody (fun text => do .ok ((),← skipValue depth text)) rest
      .ok rest
    | '{' :: rest => do
      let (_,rest) ← objectBody (fun _ _ text => do
        .ok ((),← skipValue depth (← colon text))) () rest
      .ok rest
    | c :: rest => if isDigit c then skipNumber (c :: rest) else .error .malformed

def skipField (text : List Char) : Except Fault (List Char) := do
  skipValue (text.length + 1) (← colon text)

end Tether.Json
