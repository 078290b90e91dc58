import Tether.Cluster.Admitting
import Tether.Cluster.Calling
import Tether.Cluster.Far
import Tether.Cluster.Reading
import Tether.Cluster.Working

/-! Everything that runs in a cluster, and the order in which it runs: from the oldest activity to the
youngest, again and again until a whole round changes nothing; only then does time go on, to the next
moment for which something waits. -/
namespace Tether.Cluster

inductive Activity
  | reading (reading : Reading)
  | listening (peer : Nat)
  | watching (link : Nat) (due ms : Nat)
  | leaving (name : String) (link : Nat)
  | sending (peer : Nat) (due : Nat) (message : Message) (close : Bool)
  | admitting (id : String) (admitting : Admitting)
  | working (working : Working)
  | batching (id : String) (batching : Batching)
  | calling (id : String) (call : Call)

namespace Activity

def ofStart : Start → Activity
  | .read link => .reading { link }
  | .listen peer => .listening peer
  | .watch link due ms => .watching link due ms
  | .leave name link => .leaving name link
  | .send peer due message close => .sending peer due message close

def watch (w : World) (link due ms : Nat) : World × Option Activity :=
  match (w.links[link]?).map Connection.phase with
  | none | some .ready | some .disconnected => (w,none)
  | some _ =>
    if due ≤ w.now then (w.closeLink link s!"no hello within {ms}ms",none)
    else (w,some (.watching link due ms))

/-- The entry of a client goes when its link has closed. -/
def leave (w : World) (name : String) (link : Nat) : World × Option Activity :=
  if w.connected link then (w,some (.leaving name link))
  else (w.onMaster fun m => { m with roster := m.roster.remove name link },none)

def run (w : World) : Activity → World × Option Activity
  | .reading r =>
    let (w,r) := r.run w
    (w,r.map .reading)
  | .listening peer =>
    let (w,goesOn) := Far.run w peer
    (w,if goesOn then some (.listening peer) else none)
  | .watching link due ms => watch w link due ms
  | .leaving name link => leave w name link
  | .sending peer due message close =>
    if due ≤ w.now then (Far.send w peer message close,none)
    else (w,some (.sending peer due message close))
  | .admitting id a => match a.run w with
    | (w,some a) => (w,some (.admitting id a))
    | (w,none) => (w.find id .done,none)
  | .working a =>
    let (w,a) := a.run w
    (w,a.map .working)
  | .batching id b => match b.run w with
    | (w,some b) => (w,some (.batching id b))
    | (w,none) => (w.find id .done,none)
  | .calling id call => match call.run w id with
    | (w,.waits call) => (w,some (.calling id call))
    | (w,.ends finding) => (w.find id finding,none)

/-- The name under which the script may abort an activity. -/
def id? (w : World) : Activity → Option String
  | .admitting id _ | .batching id _ | .calling id _ => some id
  | .working a => (w.workers[a.worker]?).map (·.id)
  | _ => none

def drop (w : World) : Activity → World
  | .admitting _ _ => match w.master with
    | none => w
    | some m => (Admitting.refuse w m.arriving).onMaster fun m =>
      { m with arriving := [], listening := false }
  | .working a => a.drop w
  | .batching _ b => b.drop w
  | .calling _ call => call.drop w
  | _ => w

def wakes : Activity → List Nat
  | .reading r => r.wakes
  | .watching _ due _ => [due]
  | .sending _ due _ _ => [due]
  | .admitting _ a => a.wakes
  | .working a => a.wakes
  | .batching _ b => b.wakes
  | .calling _ call => call.wakes
  | _ => []

end Activity
end Tether.Cluster

namespace Tether

/-- A world and what runs in it, the oldest activity first. -/
structure Cluster where
  world : Cluster.World := {}
  activities : List Cluster.Activity := []

namespace Cluster

def runAll (w : World) : List Activity → World × List Activity
  | [] => (w,[])
  | a :: rest =>
    let (w,a) := a.run w
    let (w,rest) := runAll w rest
    (w,a.toList ++ rest)

def enlist (c : Cluster) : Cluster :=
  { world := { c.world with started := [] }
    activities := c.activities ++ c.world.started.map Activity.ofStart }

def round (c : Cluster) : Cluster :=
  let c := c.enlist
  let (world,activities) := runAll c.world c.activities
  enlist { world, activities }

/-- More rounds than any script needs before all is at rest. -/
def roundsMax : Nat := 1000000

def settle (c : Cluster) : Nat → Cluster
  | 0 => c
  | fuel + 1 =>
    let next := c.round
    if next.world.moves = c.world.moves then next else settle next fuel

def rest (c : Cluster) : Cluster := c.settle roundsMax

def nextWake (c : Cluster) : Option Nat :=
  ((c.activities.flatMap Activity.wakes).filter (c.world.now < ·)).min?

def setTime (c : Cluster) (now : Nat) : Cluster := { c with world := { c.world with now } }

def passUntil (target : Nat) (c : Cluster) : Nat → Cluster
  | 0 => c
  | fuel + 1 =>
    let c := c.rest
    match c.nextWake with
    | some t =>
      if t ≤ target then passUntil target (c.setTime t) fuel else (c.setTime target).rest
    | none => (c.setTime target).rest

def pass (c : Cluster) (ms : Nat) : Cluster := passUntil (c.world.now + ms) c (ms + 2)

def add (c : Cluster) (a : Activity) : Cluster :=
  { c with activities := c.activities ++ [a] }

def abort (c : Cluster) (id : String) : Cluster :=
  let (gone,kept) := c.activities.partition fun a => a.id? c.world == some id
  { world := gone.foldl (fun w a => a.drop w) c.world, activities := kept }

end Cluster
end Tether
