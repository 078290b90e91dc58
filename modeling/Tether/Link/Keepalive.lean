import Tether.Error
import Tether.Retry

/-! Probes that tell a live connection from a half-open one. Failures in a row are counted, and as
many as the settings allow bring the connection down. -/
namespace Tether

structure KeepaliveSettings where
  interval : Span := .ofSeconds 29
  timeout : Span := .ofSeconds 10
  maxMissed : UInt32 := 3
  enabled : Bool := true
deriving DecidableEq, Repr, Inhabited

inductive Health
  | active
  | warning
  | dead
  | disabled
deriving DecidableEq, Repr, Inhabited

def Health.name : Health → String
  | .active => "Active"
  | .warning => "Warning"
  | .dead => "Dead"
  | .disabled => "Disabled"

structure Tracker where
  maxMissed : UInt32
  health : Health
  missed : UInt32 := 0
  sent : Nat := 0
  received : Nat := 0
  failures : Nat := 0
  /-- Round trips measured so far. -/
  timed : Nat := 0
deriving DecidableEq, Repr, Inhabited

namespace Tracker

def start (settings : KeepaliveSettings) : Tracker :=
  { maxMissed := settings.maxMissed, health := if settings.enabled then .active else .disabled }

def recordSent (t : Tracker) : Tracker := { t with sent := t.sent + 1 }

/-- A success ends the run of failures. It measures a round trip if some probe was sent before. -/
def recordReceived (t : Tracker) : Tracker :=
  { t with
    received := t.received + 1
    missed := 0
    timed := if t.sent = 0 then t.timed else t.timed + 1
    health := if t.health = .disabled then .disabled else .active }

def recordFailure (t : Tracker) : Tracker :=
  let missed := t.missed + 1
  { t with
    failures := t.failures + 1
    missed
    health :=
      if t.health = .disabled then .disabled
      else if t.maxMissed ≤ missed then .dead
      else .warning }

def isDead (t : Tracker) : Bool := t.health == .dead

end Tracker

inductive ProbeResult
  | answered
  | lost (error : LinkError)
  | failed
deriving DecidableEq, Repr

namespace ProbeResult

/-- Only the loss of the connection is told apart from all other errors. -/
def ofOutcome {α : Type} : Except LinkError α → ProbeResult
  | .ok _ => .answered
  | .error e => if e.isLost then .lost e else .failed

end ProbeResult

/-- What the probe loop does after a probe. -/
inductive ProbeVerdict
  | goOn
  | stop (error : LinkError)
  | closeWith (error : LinkError)
deriving DecidableEq, Repr

/-- The tracker after a probe, and whether the loop goes on. -/
def Tracker.settle (t : Tracker) : ProbeResult → Tracker × ProbeVerdict
  | .answered => (t.recordReceived,.goOn)
  | .lost e => (t,.stop e)
  | .failed =>
    let t := t.recordFailure
    (t,if t.isDead then .closeWith (.keepaliveExhausted t.missed) else .goOn)

def probePayload : List UInt8 := "keepalive".toUTF8.toList

end Tether
