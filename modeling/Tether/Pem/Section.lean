import Tether.Text.Base64
import Tether.Text.Utf8

/-! Labelled sections of base64 text between a BEGIN and an END line. Text outside of sections is
passed over, and so are sections whose label means nothing here, whatever they hold. -/
namespace Tether.Pem

inductive Kind
  | certificate
  | publicKey
  | rsaKey
  | privateKey
  | curveKey
  | revocationList
  | signingRequest
  | helloConfig
deriving DecidableEq, Repr

def Kind.ofLabel? (label : List UInt8) : Option Kind :=
  [("CERTIFICATE",Kind.certificate),("PUBLIC KEY",.publicKey),("RSA PRIVATE KEY",.rsaKey),
   ("PRIVATE KEY",.privateKey),("EC PRIVATE KEY",.curveKey),("X509 CRL",.revocationList),
   ("CERTIFICATE REQUEST",.signingRequest),("ECHCONFIG",.helloConfig)].findSome?
    fun (name,kind) => if Utf8.encode name = label then some kind else none

def Kind.isKey : Kind → Bool
  | .rsaKey | .privateKey | .curveKey => true
  | _ => false

structure Section where
  kind : Kind
  content : List UInt8
deriving DecidableEq, Repr

/-- Lines with their ends, either of the two control characters ending one. -/
def linesOnto (line : List UInt8) (found : List (List UInt8)) : List UInt8 → List (List UInt8)
  | [] => (if line.isEmpty then found else line.reverse :: found).reverse
  | b :: rest =>
    if b = 0x0A ∨ b = 0x0D then linesOnto [] ((b :: line).reverse :: found) rest
    else linesOnto (b :: line) found rest

def lines (bytes : List UInt8) : List (List UInt8) := linesOnto [] [] bytes

def beginMark : List UInt8 := Utf8.encode "-----BEGIN "
def endMark : List UInt8 := Utf8.encode "-----END "
def dashes : List UInt8 := Utf8.encode "-----"

def dash : UInt8 := 0x2D

/-- The label of a BEGIN line, which ends in exactly five dashes but for blanks among them. -/
def label? (line : List UInt8) : Option (List UInt8) :=
  let isTail (b : UInt8) : Bool := b = dash || b = 0x0A || b = 0x0D || b = 0x20
  let tail := line.reverse.takeWhile isTail
  let tail := (tail.reverse.dropWhile (· ≠ dash))
  if tail.count dash = 5 then some ((line.take (line.length - tail.length)).drop beginMark.length)
  else none

/-- Inside a section: its label, and the text between the lines so far. -/
structure Open where
  label : List UInt8
deriving DecidableEq, Repr

inductive Fault
  | badBegin
  | noEnd
  | badText
deriving DecidableEq, Repr

/-- Reads sections line by line onto those found, the last one first. The text gathered before a
second BEGIN line is kept. -/
def readOnto (found : List Section) (inside : Option Open) (text : List UInt8) :
    List (List UInt8) → List Section × Option Fault
  | [] => (found.reverse,if inside.isSome then some .noEnd else none)
  | line :: rest =>
    if beginMark.isPrefixOf line then
      match label? line with
      | none => (found.reverse,some .badBegin)
      | some label => readOnto found (some ⟨label⟩) text rest
    else match inside with
      | none => readOnto found none text rest
      | some current =>
        if (endMark ++ current.label ++ dashes).isPrefixOf line then
          match Kind.ofLabel? current.label with
          | none => readOnto found none [] rest
          | some kind => match Base64.decode? text with
            | none => (found.reverse,some .badText)
            | some content => readOnto (⟨kind,content⟩ :: found) none [] rest
        else readOnto found inside (text ++ line) rest

/-- The sections up to the first fault, and the fault. -/
def read (bytes : List UInt8) : List Section × Option Fault := readOnto [] none [] (lines bytes)

/-- Every certificate; none at all, or a fault anywhere, is an error. -/
def certificates (bytes : List UInt8) : Except String (List (List UInt8)) :=
  match read bytes with
  | (_,some _) => .error "invalid certificate PEM"
  | (sections,none) =>
    match sections.filterMap fun s => if s.kind = .certificate then some s.content else none with
    | [] => .error "no certificates found in PEM"
    | found => .ok found

/-- The first private key; a fault behind it does not count. -/
def privateKey (bytes : List UInt8) : Except String (List UInt8) :=
  match read bytes with
  | (sections,fault) =>
    match sections.find? fun s => s.kind.isKey with
    | some s => .ok s.content
    | none => .error (if fault.isSome then "invalid private key PEM" else "no private key found in PEM")

end Tether.Pem
