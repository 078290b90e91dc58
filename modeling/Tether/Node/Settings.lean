import Tether.Batch.Collector
import Tether.Cipher.Payload
import Tether.Link.Keepalive
import Tether.Node.Refusal
import Tether.Text.Blank
import Tether.Wire.Limits

/-! What a node is told about itself and its cluster, the rules that settings must keep, and what the
links, the batcher and the master's and worker's loops are given of them. -/
namespace Tether.Node

inductive NodeRole
  | master
  | worker
deriving DecidableEq, Repr, Inhabited

def NodeRole.name : NodeRole → String
  | .master => "master"
  | .worker => "worker"

inductive Pacing
  | fixed
  | exponential
deriving DecidableEq, Repr, Inhabited

def Pacing.name : Pacing → String
  | .fixed => "fixed"
  | .exponential => "exponential"

structure TlsPaths where
  ca : String
  cert : Option String := none
  key : Option String := none
  /-- Workers must show a certificate. -/
  clientAuth : Bool := false
deriving DecidableEq, Repr, Inhabited

/-- Delays are in seconds, but for the longest wait of a batch, which is in milliseconds. -/
structure Settings where
  name : String := "node01"
  role : NodeRole := .master
  masters : List String := ["127.0.0.1"]
  port : UInt16 := 1516
  bindAddress : String := "0.0.0.0"
  key : Option String := none
  tls : Option TlsPaths := none
  chunkSize : UInt64 := 65536
  keepaliveInterval : UInt64 := 29
  keepaliveTimeout : UInt64 := 10
  keepaliveMaxMissed : UInt32 := 3
  reconnectDelay : UInt64 := 10
  pacing : Pacing := .fixed
  reconnectMax : UInt64 := 60
  clientTimeout : UInt64 := 120
  checkInterval : UInt64 := 60
  receiveDirectory : Option String := none
  batchElements : UInt64 := 6
  batchSize : UInt64 := 30000
  batchWait : UInt64 := 5000
deriving DecidableEq, Repr, Inhabited

namespace Settings

def limits (s : Settings) : Limits := { chunkSize := s.chunkSize }

/-- The cipher of the cluster's secret; none without a secret. -/
def cipher (s : Settings) : Except Refusal (Option Cipher) :=
  match s.key with
  | none => .ok none
  | some secret => match Cipher.ofSecret secret with
    | .ok c => .ok (some c)
    | .error fault => .error (.secret fault)

/-- The rules in the order in which they are asked. -/
def validate (s : Settings) : Except Refusal Unit := do
  if (Blank.trim s.name).isEmpty then .error .emptyName
  if s.role = .worker ∧ s.masters.isEmpty then .error .workerAlone
  let _ ← s.cipher
  s.limits.validate.mapError .limits
  if s.keepaliveMaxMissed = 0 then .error .noProbes

/-- Where a worker dials: the first of the masters. -/
def masterAddress (s : Settings) : Except Refusal String :=
  match s.masters with
  | host :: _ => .ok s!"{host}:{s.port}"
  | [] => .error .noMaster

def listenAddress (s : Settings) : String := s!"{s.bindAddress}:{s.port}"

def keepalive (s : Settings) : KeepaliveSettings :=
  { interval := .ofSeconds s.keepaliveInterval.toNat
    timeout := .ofSeconds s.keepaliveTimeout.toNat
    maxMissed := s.keepaliveMaxMissed }

def batching (s : Settings) : CollectorSettings :=
  { limits := { elements := s.batchElements.toNat, size := s.batchSize.toNat }
    maxWait := s.batchWait.toNat }

def policy (s : Settings) : RetryPolicy :=
  match s.pacing with
  | .fixed => .fixed { delay := .ofSeconds s.reconnectDelay.toNat }
  | .exponential =>
    .backoff { initial := .ofSeconds s.reconnectDelay.toNat, max := .ofSeconds s.reconnectMax.toNat }

end Settings
end Tether.Node
