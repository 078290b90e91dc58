import Tether.Batch.Event
import Tether.Link.Connection

/-! A batch on its way to a sink at the other end of a link: the request carries the list of events,
the reply the list of answers, and a sink that fails is reported as an error of the peer. -/
namespace Tether.Batch

def request (batch : List Event) : List UInt8 := Event.toBytes batch

def faultDetail : Json.Fault → String
  | .malformed => "malformed"
  | .mismatched => "wrong shape"
  | .unfinished => "unfinished"

def readRequest (body : List UInt8) : Except LinkError (List Event) :=
  (Event.ofBytes? body).mapError fun fault => .protocol (.noEvents (faultDetail fault))

/-- The reply to a request whose batch came to this. -/
def reply : Except BatchError (List Event) → Except LinkError Reply
  | .ok answers => .ok (.ok (Event.toBytes answers))
  | .error e => .error (.application e.message)

/-- The answers that the outcome of a request brings. -/
def readReply : Outcome → Except BatchError (List Event)
  | .error e => .error (.link e)
  | .ok (_,body) => (Event.ofBytes? body).mapError fun fault => .serialization (faultDetail fault)

def disconnected : BatchError := .notConnected "client has no connection to the master"

end Tether.Batch
