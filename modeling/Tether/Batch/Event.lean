import Tether.Json.Printer
import Tether.Json.Shape
import Tether.Error
import Tether.Text.Utf8
import Tether.Uid

/-! Events and the answers to them: a body under the identifier that ties the two together. Lists of
them travel as JSON. -/
namespace Tether

structure Event where
  uid : Uid
  msg : Json
deriving Repr, Inhabited

namespace Event

def chars (e : Event) : List Char :=
  "\x7b\"uid\":".toList ++ Json.quoted e.uid.text ++ ",\"msg\":".toList ++ e.msg.chars ++ ['\x7d']

/-- The compact JSON array of events, each with its identifier first. -/
def print (events : List Event) : String :=
  String.ofList ('[' :: (Json.commaSeparated (events.map chars) ++ [']']))

def readUid : Json.Reader Uid := fun text => do
  let (s,rest) ← Json.expectString text
  match Uid.parse? s with
  | some uid => .ok (uid,rest)
  | none => .error .mismatched

/-- What is known of an event while its fields are read. -/
structure Draft where
  uid : Option Uid := none
  msg : Option Json := none

def depth : Nat := Json.depthLimit - 2

def readField (d : Draft) (key : String) : Json.Reader Draft := fun text =>
  if key = "uid" then
    if d.uid.isSome then .error .mismatched
    else do
      let (uid,rest) ← readUid (← Json.colon text)
      .ok ({ d with uid := some uid },rest)
  else if key = "msg" then
    if d.msg.isSome then .error .mismatched
    else do
      let (msg,rest) ← Json.value depth (← Json.colon text)
      .ok ({ d with msg := some msg },rest)
  else do .ok (d,← Json.skipField text)

/-- The two values in a row, after the opening bracket. -/
def readPair : Json.Reader Event := fun text => do
  match ← Json.nextItem true text with
  | none => .error .mismatched
  | some text =>
    let (uid,rest) ← readUid text
    match ← Json.nextItem false rest with
    | none => .error .mismatched
    | some text =>
      let (msg,rest) ← Json.value depth text
      .ok (⟨uid,msg⟩,← Json.closeArray rest)

/-- An event is an object with both fields, each once, or an array of both values. -/
def read : Json.Reader Event := fun text =>
  match Json.skipBlanks text with
  | '\x7b' :: rest => do
    let (d,rest) ← Json.objectBody readField {} rest
    match d with
    | ⟨some uid,some msg⟩ => .ok (⟨uid,msg⟩,rest)
    | _ => .error .mismatched
  | '[' :: rest => readPair rest
  | text => Json.refuse text

def parseList (text : String) : Except Json.Fault (List Event) :=
  Json.read (Json.expectArray read) text

/-- A list of events out of the bytes of a request or a reply. -/
def ofBytes? (bytes : List UInt8) : Except Json.Fault (List Event) :=
  match Utf8.decode? bytes with
  | some text => parseList text
  | none => .error .malformed

def toBytes (events : List Event) : List UInt8 := Utf8.encode (print events)

end Event

/-- What can go wrong between queueing an event and collecting its answer. -/
inductive BatchError
  | queueClosed
  | duplicate (uid : Uid)
  | timeout (uid : Uid) (ms : UInt64)
  | notConnected (reason : String)
  | serialization (detail : String)
  | link (error : LinkError)
deriving DecidableEq, Repr

def BatchError.message : BatchError → String
  | .queueClosed => "mux queue closed"
  | .duplicate uid => s!"duplicate event id {uid}"
  | .timeout uid ms => s!"no response for {uid} after {ms}ms"
  | .notConnected reason => s!"no connection available: {reason}"
  | .serialization detail => s!"serialization error: {detail}"
  | .link error => error.message

end Tether
