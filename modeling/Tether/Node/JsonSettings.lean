import Tether.Json.Shape
import Tether.Node.Slot

/-! Settings in JSON. A record is an object, with each field at most once and unknown ones passed over,
or an array of its fields' values in their order. -/
namespace Tether.Json

/-- Reads a field into what was found of a record, and remembers its name. -/
def once {σ : Type} (keys : List String) (field : σ → String → Reader σ) :
    List String × σ → String → Reader (List String × σ) := fun (seen,found) key text =>
  if !keys.contains key then do .ok ((seen,found),← skipField text)
  else if seen.contains key then .error .mismatched
  else do
    let (found,rest) ← field found key (← colon text)
    .ok ((key :: seen,found),rest)

/-- An array's elements for fields in their order; so many of them must be there. -/
def inOrder {σ : Type} (field : σ → String → Reader σ) (needed : Nat) (found : σ) (first : Bool) :
    List String → Reader σ
  | [], text => do .ok (found,← closeArray text)
  | key :: keys, text => do
    match ← nextItem first text with
    | none => if needed = 0 then .ok (found,← closeArray text) else .error .mismatched
    | some text =>
      let (found,rest) ← field found key text
      inOrder field (needed - 1) found false keys rest

/-- How a record is read: its fields, those that an object must have, and the least length of an
array. -/
structure RecordShape (σ : Type) where
  keys : List String
  field : σ → String → Reader σ
  required : List String := []
  least : Nat := 0

def record {σ : Type} (shape : RecordShape σ) (start : σ) : Reader σ := fun text =>
  match skipBlanks text with
  | '[' :: rest => inOrder shape.field shape.least start true shape.keys rest
  | '{' :: rest => do
    let ((seen,found),rest) ← objectBody (once shape.keys shape.field) ([],start) rest
    if shape.required.all seen.contains then .ok (found,rest) else .error .mismatched
  | text => refuse text

def pick {α : Type} (options : List (String × α)) (name : String) : Except Fault α :=
  match options.lookup name with
  | some a => .ok a
  | none => .error .mismatched

def expectNull : Reader Unit := fun text =>
  match skipBlanks text with
  | 'n' :: rest => do .ok ((),← word "ull".toList rest)
  | text => refuse text

/-- A name out of several, alone or as the only key of an object that holds null. -/
def choice {α : Type} (options : List (String × α)) : Reader α := fun text =>
  match skipBlanks text with
  | [] => .error .unfinished
  | '"' :: rest => do
    let (name,rest) ← stringBody rest
    .ok (← pick options name,rest)
  | '{' :: rest => do
    let (name,rest) ← expectString rest
    let a ← pick options name
    let (_,rest) ← expectNull (← colon rest)
    .ok (a,← closeObject rest)
  | _ => .error .malformed

end Tether.Json

namespace Tether.Node

def TlsPaths.field (p : TlsPaths) (key : String) : Json.Reader TlsPaths := fun text => do
  if key = "ca_cert" then
    let (v,rest) ← Json.expectString text
    .ok ({ p with ca := v },rest)
  else if key = "require_client_auth" then
    let (v,rest) ← Json.expectBool text
    .ok ({ p with clientAuth := v },rest)
  else
    let (v,rest) ← Json.optional Json.expectString text
    .ok (if key = "cert" then { p with cert := v } else { p with key := v },rest)

def TlsPaths.shape : Json.RecordShape TlsPaths :=
  { keys := ["ca_cert","cert","key","require_client_auth"]
    field := TlsPaths.field
    required := ["ca_cert"]
    least := 3 }

def Slot.read (slot : Slot) (s : Settings) : Json.Reader Settings := fun text => do
  match slot with
  | .text put =>
    let (v,rest) ← Json.expectString text
    .ok (put v s,rest)
  | .maybeText put =>
    let (v,rest) ← Json.optional Json.expectString text
    .ok (put v s,rest)
  | .texts put =>
    let (v,rest) ← Json.expectArray Json.expectString text
    .ok (put v s,rest)
  | .natural bound put =>
    let (n,rest) ← Json.expectNatural bound text
    .ok (put n s,rest)
  | .choice options =>
    let (change,rest) ← Json.choice options text
    .ok (change s,rest)
  | .tls put =>
    let (v,rest) ← Json.optional (Json.record TlsPaths.shape { ca := "" }) text
    .ok (put v s,rest)

namespace Settings

def field (s : Settings) (key : String) : Json.Reader Settings := fun text =>
  match Slot.all.lookup key with
  | some slot => slot.read s text
  | none => .ok (s,text)

def shape : Json.RecordShape Settings := { keys := Slot.all.map Prod.fst, field }

def toJson (s : Settings) : Json :=
  let maybe : Option String → Json := fun v => (v.map Json.str).getD .null
  let word (n : UInt64) : Json := .whole n.toNat
  let tls : Json := match s.tls with
    | none => .null
    | some p => .ofFields [("ca_cert",.str p.ca),("cert",maybe p.cert),("key",maybe p.key),
        ("require_client_auth",.bool p.clientAuth)]
  .ofFields
    [("name",.str s.name),("node_type",.str s.role.name),("masters",.array (s.masters.map .str)),
     ("port",.whole s.port.toNat),("bind_addr",.str s.bindAddress),("key",maybe s.key),
     ("tls",tls),("chunk_size",word s.chunkSize),
     ("keepalive_interval_secs",word s.keepaliveInterval),
     ("keepalive_timeout_secs",word s.keepaliveTimeout),
     ("keepalive_max_missed",.whole s.keepaliveMaxMissed.toNat),
     ("reconnect_delay_secs",word s.reconnectDelay),("reconnect_strategy",.str s.pacing.name),
     ("max_reconnect_delay_secs",word s.reconnectMax),
     ("client_keepalive_timeout_secs",word s.clientTimeout),
     ("client_check_interval_secs",word s.checkInterval),
     ("receive_dir",maybe s.receiveDirectory),("batch_max_elements",word s.batchElements),
     ("batch_max_size",word s.batchSize),("batch_max_time_ms",word s.batchWait)]

def ofJson (text : String) : Except Json.Fault Settings := Json.read (Json.record shape {}) text

end Settings
end Tether.Node
