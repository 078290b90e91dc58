import Tether.Cluster.World

/-! The master at work: it accepts streams, gives each a link that waits for hello, checks at intervals
which clients are still heard of, and closes everything when it stops. -/
namespace Tether.Cluster

structure Admitting where
  nextCheck : Nat
  /-- After a failed accept nothing is done until then. -/
  restUntil : Option Nat := none

namespace Admitting

/-- How long a failed accept is rested for. -/
def restTime : Nat := 100

def adopt (w : World) (m : Master) (addr : String) (source sink : Nat) : World :=
  let (w,i) := w.addLink m.name .acceptor addr
    { codec := m.codec, source, sink, traffic := m.traffic, registry := m.registry }
  let w := w.start (.watch i (w.now + m.greetingLimit) m.greetingLimit)
  w.onMaster fun m => { m with roster := m.roster.adopt w.links i }

/-- Closes the clients that were not heard of for too long. -/
def check (w : World) : World :=
  match w.master with
  | none => w
  | some m =>
    let w := w.tick
    let (roster,links,stale) := m.roster.expire w.links m.expiry w.wall
    if stale.isEmpty then w
    else ({ w with links }.onMaster fun m => { m with roster }).count m.traffic
      (stale.map fun _ => .keepaliveFailure)

def checkDue (w : World) (interval : Nat) (due : Nat) : Nat → World × Nat
  | 0 => (w,due)
  | fuel + 1 =>
    if due ≤ w.now then checkDue (check w) interval (due + interval) fuel else (w,due)

/-- Takes what has arrived, until an accept fails for good reason to rest. -/
def acceptAll (w : World) (m : Master) : List Arriving → World × List Arriving × Bool
  | [] => (w,[],false)
  | .stream addr source sink :: rest => acceptAll (adopt w m addr source sink) m rest
  | .fault (.io _) :: rest => (w.count m.traffic [.error],rest,true)
  | .fault _ :: rest => acceptAll (w.count m.traffic [.error]) m rest

def refuse (w : World) (arriving : List Arriving) : World :=
  arriving.foldl (fun w a => match a with
    | .stream _ _ sink => w.endPipe sink
    | .fault _ => w) w

def stop (w : World) (m : Master) : World :=
  let (roster,links) := m.roster.stop w.links
  (refuse { w with links } m.arriving).onMaster fun m =>
    { m with roster, arriving := [], listening := false }

def run (w : World) (a : Admitting) : World × Option Admitting :=
  match w.master with
  | none => (w,none)
  | some m =>
    if (a.restUntil.getD 0) > w.now then (w,some a)
    else if m.stopping then (stop w m,none)
    else
      let (w,nextCheck) :=
        checkDue w m.interval a.nextCheck (w.now / max 1 m.interval + 1)
      let (w,rest,failed) := acceptAll w m m.arriving
      let w := if m.arriving.isEmpty then w else w.onMaster fun m => { m with arriving := rest }
      (w,some ⟨nextCheck,if failed then some (w.now + restTime) else none⟩)

def wakes (a : Admitting) : List Nat := a.nextCheck :: a.restUntil.toList

end Admitting
end Tether.Cluster
