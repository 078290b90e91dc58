import Tether.Cluster.World

/-! One request on a link, from its counter to its outcome, and hello as the request that opens a
link. A request that is given up leaves the table of those in flight. -/
namespace Tether.Cluster

structure Request where
  link : Nat
  tag : Tag
  payload : List UInt8
  /-- How long the outcome is waited for, in milliseconds. -/
  limit : Option Nat := none
  /-- Only a ready link takes it. -/
  gated : Bool := true

inductive Exchange
  | fresh (request : Request)
  | inFlight (link : Nat) (ticket : Ticket) (limit : Option Nat) (deadline : Option Nat)

namespace World

def releaseTicket (w : World) (link : Nat) (ticket : Ticket) : World :=
  w.onLink link (·.release ticket)

/-- Takes a counter for a request, if the link takes requests at all. -/
def openRequest (w : World) (link : Nat) (tag : Tag) (gated : Bool) :
    World × Except LinkError Ticket :=
  match w.links[link]? with
  | none => (w,.error (.lost "connection closed"))
  | some c =>
    match if gated then c.ensureReady else .ok () with
    | .error e => (w,.error e)
    | .ok () => match c.startRequest tag with
      | .error e => (w,.error e)
      | .ok (c,ticket) => (w.onLink link fun _ => c,.ok ticket)

end World

namespace Exchange

/-- The outcome counts if it is there; the deadline only if it is not. -/
def await (w : World) (link : Nat) (ticket : Ticket) (limit deadline : Option Nat) :
    World × Turn Exchange Outcome :=
  match (w.links[link]?).bind (·.outcome? ticket) with
  | some outcome => (w.releaseTicket link ticket,.ends outcome)
  | none => match limit, deadline with
    | some ms, some due =>
      if due ≤ w.now then
        ((w.countOn link [.timeout]).releaseTicket link ticket,
          .ends (.error (.requestTimeout ticket.counter (UInt64.ofNat ms))))
      else (w,.waits (.inFlight link ticket limit deadline))
    | _, _ => (w,.waits (.inFlight link ticket limit deadline))

/-- The wait starts as soon as the request is out, so a limit of zero has passed at once. -/
def begin (w : World) (r : Request) : World × Turn Exchange Outcome :=
  match w.openRequest r.link r.tag r.gated with
  | (w,.error e) => (w,.ends (.error e))
  | (w,.ok ticket) => match w.writeMessage r.link ⟨ticket.counter,r.tag,false,r.payload⟩ with
    | (w,.error e) => (w.releaseTicket r.link ticket,.ends (.error e))
    | (w,.ok ()) =>
      await (w.countOn r.link [.requestSent]) r.link ticket r.limit (r.limit.map (w.now + ·))

def run (w : World) : Exchange → World × Turn Exchange Outcome
  | .fresh request => begin w request
  | .inFlight link ticket limit deadline => await w link ticket limit deadline

def drop (w : World) : Exchange → World
  | .fresh _ => w
  | .inFlight link ticket _ _ => w.releaseTicket link ticket

def wakes : Exchange → List Nat
  | .inFlight _ _ _ (some due) => [due]
  | _ => []

end Exchange

/-! ### Hello -/

inductive Greeting
  | fresh (link : Nat)
  | asked (link : Nat) (exchange : Exchange)

namespace Greeting

def settle (w : World) (link : Nat) : Turn Exchange Outcome →
    World × Turn Greeting (Except LinkError String)
  | .waits x => (w,.waits (.asked link x))
  | .ends outcome => match w.links[link]? with
    | none => (w,.ends (.error (.lost "connection closed")))
    | some c =>
      let (c,result) := c.finishHandshake outcome
      (w.onLink link fun _ => c,.ends result)

def run (w : World) : Greeting → World × Turn Greeting (Except LinkError String)
  | .asked link x =>
    let (w,turn) := x.run w
    settle w link turn
  | .fresh link => match (w.links[link]?).map Connection.beginHandshake with
    | none => (w,.ends (.error (.lost "connection closed")))
    | some (.error e) => (w,.ends (.error e))
    | some (.ok c) =>
      let w := w.onLink link fun _ => c
      let (w,turn) := Exchange.begin w
        { link, tag := .hello, payload := Utf8.encode c.name, gated := false }
      settle w link turn

def drop (w : World) : Greeting → World
  | .fresh _ => w
  | .asked _ x => x.drop w

def wakes : Greeting → List Nat
  | .fresh _ => []
  | .asked _ x => x.wakes

end Greeting
end Tether.Cluster
