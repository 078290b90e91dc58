/-! Options on a command line, each with one value. A value stands in the same word as its option or in
the next one; it is judged when the next option begins, or when the line ends. -/
namespace Tether.Node

/-- Why a command line is refused, or that it only asks for help. -/
inductive UsageFault
  | unknownOption
  | badValue
  | unreadable
  | conflict
  | needlessValue
  | unknownCommand
  | noCommand
  | nothing
  | help
deriving DecidableEq, Repr

/-- What the value of an option may be. -/
inductive ValueKind
  | text
  | path
  | word (options : List String)
  /-- A number below a bound, which may have a sign of either kind. -/
  | signed (bound : Nat)
  /-- A number below a bound, which may have a plus. -/
  | unsigned (bound : Nat)
deriving DecidableEq, Repr

inductive OptionValue
  | text (s : String)
  | number (n : Nat)
deriving DecidableEq, Repr

structure OptionSpec where
  long : String
  short : Option Char := none
  kind : ValueKind
deriving DecidableEq, Repr

namespace ValueKind

def digits? (text : List Char) : Option Nat :=
  if text.isEmpty ∨ !text.all Char.isDigit then none
  else some (text.foldl (fun n c => n * 10 + (c.toNat - 48)) 0)

def number? (minus : Bool) : List Char → Option Nat
  | '+' :: rest => digits? rest
  | '-' :: rest => if minus then (digits? rest).filter (· = 0) else none
  | digits => digits? digits

def below (bound : Nat) : Option Nat → Except UsageFault OptionValue
  | some n => if n < bound then .ok (.number n) else .error .unreadable
  | none => .error .unreadable

def read (kind : ValueKind) (text : String) : Except UsageFault OptionValue :=
  match kind with
  | .text => .ok (.text text)
  | .path => if text.isEmpty then .error .badValue else .ok (.text text)
  | .word options => if options.contains text then .ok (.text text) else .error .badValue
  | .signed bound => below bound (number? true text.toList)
  | .unsigned bound => below bound (number? false text.toList)

end ValueKind

/-- The options read so far. The one that came last may still wait for its value, or for its value to
be judged. -/
structure Options where
  found : List (String × OptionValue) := []
  last : Option (OptionSpec × Option String) := none
deriving Repr, Inhabited

namespace Options

def has (o : Options) (long : String) : Bool := (o.found.lookup long).isSome

def text? (o : Options) (long : String) : Option String :=
  match o.found.lookup long with
  | some (.text s) => some s
  | _ => none

def number? (o : Options) (long : String) : Option Nat :=
  match o.found.lookup long with
  | some (.number n) => some n
  | _ => none

def accept (o : Options) (spec : OptionSpec) (value : String) : Except UsageFault Options :=
  if o.has spec.long then .error .conflict
  else do
    let v ← spec.kind.read value
    .ok { found := o.found ++ [(spec.long,v)] }

def settle (o : Options) : Except UsageFault Options :=
  match o.last with
  | none => .ok o
  | some (_,none) => .error .badValue
  | some (spec,some value) => { o with last := none }.accept spec value

/-- An option, with its value if that stands in the same word. -/
def begin (o : Options) (spec : OptionSpec) (attached : Option String) : Except UsageFault Options := do
  let o ← o.settle
  match attached with
  | some value => o.accept spec value
  | none => .ok { o with last := some (spec,none) }

def askHelp (o : Options) : Except UsageFault Options := do
  let _ ← o.settle
  .error .help

/-- A word that begins with two dashes, without them. -/
def long (specs : List OptionSpec) (o : Options) (body : List Char) : Except UsageFault Options :=
  let name := String.ofList (body.takeWhile (· ≠ '='))
  let attached := match body.dropWhile (· ≠ '=') with
    | [] => none
    | _ :: value => some (String.ofList value)
  match specs.find? (·.long = name) with
  | some spec => o.begin spec attached
  | none =>
    if name ≠ "help" then .error .unknownOption
    else if attached.isSome then .error .needlessValue
    else o.askHelp

/-- A word that begins with one dash: its letter, and the rest of the word. -/
def short (specs : List OptionSpec) (o : Options) (letter : Char) (rest : List Char) :
    Except UsageFault Options :=
  match specs.find? (·.short = some letter) with
  | some spec => o.begin spec (match rest with
    | [] => none
    | c :: value => some (String.ofList (if c = '=' then value else c :: value)))
  | none => if letter = 'h' then o.askHelp else .error .unknownOption

/-- A word where neither an option nor a value may stand. Behind two dashes even a command counts as
an option that is not known. -/
def stray (commands : List String) (literal : Bool) (word : String) : UsageFault :=
  if commands.isEmpty ∨ (literal ∧ commands.contains word) then .unknownOption else .unknownCommand

/-- The word as the value of an option that waits for one. -/
def hold (o : Options) (word : String) : Option Options :=
  match o.last with
  | some (spec,none) => some { o with last := some (spec,some word) }
  | _ => none

def waits (o : Options) : Bool := (o.hold "").isSome

/-- Reads words up to a command: the options, and the command with the words behind it. -/
def scan (specs : List OptionSpec) (commands : List String) (o : Options) :
    List String → Except UsageFault (Options × Option (String × List String))
  | [] => .ok (o,none)
  | word :: words =>
    if !o.waits && commands.contains word then .ok (o,some (word,words))
    else match word.toList with
      | ['-','-'] => match words with
        | [] => .ok (o,none)
        | word :: _ => .error (stray commands true word)
      | '-' :: '-' :: body => do scan specs commands (← o.long specs body) words
      | '-' :: letter :: rest => do scan specs commands (← o.short specs letter rest) words
      | _ => match o.hold word with
        | some o => scan specs commands o words
        | none => .error (stray commands false word)

end Options
end Tether.Node
