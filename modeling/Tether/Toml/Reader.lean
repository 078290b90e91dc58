import Tether.Toml.Scalar

/-! TOML documents, line by line. -/
namespace Tether.Toml

/-- Keys have fewer parts than this, and values lie in fewer brackets and braces. -/
def depthLimit : Nat := 80

def isBare (c : Char) : Bool := c.isAlphanum || c = '_' || c = '-'

def keyPart : Reader String
  | [] => refuse
  | c :: rest =>
    if c = '"' ∨ c = '\'' then lineString c rest
    else
      let name := (c :: rest).takeWhile isBare
      if name.isEmpty then refuse else .ok (String.ofList name,(c :: rest).dropWhile isBare)

/-- The parts of a key with their dots and blanks; `path` is what was read, last part first. -/
def keyOnto (path : List String) : Nat → Reader (List String × String)
  | 0, _ => refuse
  | fuel + 1, text => do
    let (key,rest) ← keyPart (skipBlanks text)
    match skipBlanks rest with
    | '.' :: rest => keyOnto (key :: path) fuel rest
    | rest => if depthLimit ≤ path.length + 1 then refuse else .ok ((path.reverse,key),rest)

def key : Reader (List String × String) := fun text => keyOnto [] (text.length + 1) text

/-- Blanks, line ends and comments, inside of brackets. -/
def skipVoid (inComment : Bool) : List Char → List Char
  | [] => []
  | c :: rest =>
    if inComment ∧ isPlain c then skipVoid true rest
    else if c = '#' then skipVoid true rest
    else if isBlank c ∨ (lineEnd? (c :: rest)).isSome then skipVoid false rest
    else c :: rest

/-- Items read onto those found, the last one first; a comma may follow the last one. -/
def itemsOnto (item : Reader Value) (found : List Value) : Nat → Reader (List Value)
  | 0, _ => refuse
  | fuel + 1, text =>
    match skipVoid false text with
    | ']' :: rest => .ok (found.reverse,rest)
    | text => do
      let (v,rest) ← item text
      match skipVoid false rest with
      | ',' :: rest => itemsOnto item (v :: found) fuel rest
      | ']' :: rest => .ok ((v :: found).reverse,rest)
      | _ => refuse

/-- A key, the sign, and the value, which `item` reads. -/
def fieldWith (item : Reader Value) : Reader ((List String × String) × Value) := fun text => do
  let (k,rest) ← key text
  match rest with
  | '=' :: rest => do
    let (v,rest) ← item (skipBlanks rest)
    .ok ((k,v),rest)
  | _ => refuse

/-- Fields in braces, on one line and without a last comma. -/
def bracedInto (item : Reader Value) (fields : Fields) : Nat → Reader Fields
  | 0, _ => refuse
  | fuel + 1, text => do
    let (((path,key),v),rest) ← fieldWith item text
    let fields ← assign path key v fields
    match skipBlanks rest with
    | ',' :: rest => bracedInto item fields fuel rest
    | '}' :: rest => .ok (fields,rest)
    | _ => refuse

def value : Nat → Reader Value
  | 0, text => scalar text
  | depth + 1, text =>
    match text with
    | '[' :: rest => do
      let (items,rest) ← itemsOnto (value depth) [] (rest.length + 1) rest
      .ok (.array items,rest)
    | '{' :: rest =>
      match skipBlanks rest with
      | '}' :: rest => .ok (.table .braces [],rest)
      | rest => do
        let (fields,rest) ← bracedInto (value depth) [] (rest.length + 1) rest
        .ok (.table .braces fields,rest)
    | text => scalar text

/-- The rest of a line: blanks, a comment, and the end of the line or of the document. -/
def lineRest (text : List Char) : Except Fault (List Char) :=
  let text := match skipBlanks text with
    | '#' :: rest => rest.dropWhile isPlain
    | text => text
  match text with
  | [] => .ok []
  | text => match lineEnd? text with
    | some rest => .ok rest
    | none => refuse

/-- A line from its first character that is no blank; none for one that says nothing. -/
def line : Reader (Option Line) := fun text =>
  match text with
  | '[' :: '[' :: rest => do
    let ((path,key),rest) ← key rest
    match rest with
    | ']' :: ']' :: rest => .ok (some (.element path key),← lineRest rest)
    | _ => refuse
  | '[' :: rest => do
    let ((path,key),rest) ← key rest
    match rest with
    | ']' :: rest => .ok (some (.header path key),← lineRest rest)
    | _ => refuse
  | c :: rest =>
    if c = '#' ∨ (lineEnd? (c :: rest)).isSome then do .ok (none,← lineRest (c :: rest))
    else do
      let (((path,key),v),rest) ← fieldWith (value (depthLimit - 1)) text
      .ok (some (.field path key v),← lineRest rest)
  | [] => refuse

def linesInto (d : Document) : Nat → List Char → Except Fault Document
  | 0, _ => refuse
  | fuel + 1, text =>
    match skipBlanks text with
    | [] => .ok d
    | text => do
      let (l,rest) ← line text
      linesInto (← l.elim (.ok d) d.add) fuel rest

/-- A mark of the byte order that some editors put first. -/
def orderMark : Char := '\uFEFF'

def parse (text : String) : Except Fault Fields := do
  let text := match text.toList with
    | c :: rest => if c = orderMark then rest else c :: rest
    | [] => []
  let d ← linesInto {} (text.length + 1) text
  .ok d.fields

end Tether.Toml
