import Tether.Link.Connection
import Tether.Transfer.Upload

/-! Workloads that a worker runs on a fresh link, and what they make of the answers. Echoes one after
the other are compared by their length, echoes at once byte for byte. -/
namespace Tether

inductive Workload
  | idle
  | performance (size : Nat) (iterations : UInt32)
  | concurrency (requests : UInt32)
  | sendFile (path : String)
  | sendString (size : Nat)
deriving DecidableEq, Repr, Inhabited

inductive Report
  | performance (size : Nat) (iterations : UInt32)
  | concurrency (requests failures : UInt32)
  | file (receipt : Receipt)
  | string (text : String)
deriving DecidableEq, Repr

namespace Diagnostics

def filler (size : Nat) : List UInt8 := List.replicate size 0x61

def judgeLength (size : Nat) : Outcome → Except LinkError Unit
  | .error e => .error e
  | .ok (_,reply) =>
    if reply.length = size then .ok ()
    else .error (.application s!"echo returned {reply.length} bytes, sent {size}")

def body (i : Nat) : List UInt8 := Utf8.encode s!"concurrency {i}"

def judgeBody (i : Nat) : Outcome → Except LinkError Unit
  | .error e => .error e
  | .ok (_,reply) =>
    if reply = body i then .ok () else .error (.application s!"request {i} got a foreign reply")

/-- The failures among requests at once, in the order of the requests. A lost link ends the count. -/
def countFailures : List (Except LinkError Unit) → Except LinkError UInt32
  | [] => .ok 0
  | .ok _ :: rest => countFailures rest
  | .error e :: rest => if e.isLost then .error e else (countFailures rest).map (· + 1)

end Diagnostics
end Tether
