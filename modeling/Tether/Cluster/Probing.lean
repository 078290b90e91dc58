import Tether.Cluster.Exchange

/-! The loop of probes on a link. A probe is due one interval after the start, and then one interval
after the probe before it was due; after a delay the interval counts from the late probe. -/
namespace Tether.Cluster

inductive ProbeStage
  | unstarted
  /-- Probes are off; only the end of the link is waited for. -/
  | dormant
  | resting (due : Nat)
  | asking (due : Nat) (exchange : Exchange)

structure Probing where
  link : Nat
  settings : KeepaliveSettings
  tag : Tag
  tracker : Tracker
  stage : ProbeStage := .unstarted

namespace Probing

def begin (link : Nat) (settings : KeepaliveSettings) (tag : Tag) : Probing :=
  { link, settings, tag, tracker := .start settings }

/-- So many milliseconds late is not late. -/
def tolerance : Nat := 5

def following (p : Probing) (now due : Nat) : Nat :=
  (if due + tolerance < now then now else due) + p.settings.interval.millis

def lost (w : World) (link : Nat) : LinkError :=
  match w.links[link]? with
  | some c => c.lostError
  | none => .lost "connection closed"

def settle (w : World) (p : Probing) (due : Nat) (outcome : Outcome) :
    World × Turn Probing (Tracker × LinkError) :=
  let result := ProbeResult.ofOutcome outcome
  let w := match result with
    | .failed => w.countOn p.link [.keepaliveFailure]
    | _ => w
  match p.tracker.settle result with
  | (tracker,.goOn) => (w,.waits { p with tracker, stage := .resting due })
  | (tracker,.stop e) => (w,.ends (tracker,e))
  | (tracker,.closeWith e) => (w.closeLink p.link e.message,.ends (tracker,e))

def runExchange (w : World) (p : Probing) (due : Nat) (x : Exchange) :
    World × Turn Probing (Tracker × LinkError) :=
  match x.run w with
  | (w,.waits x) => (w,.waits { p with stage := .asking due x })
  | (w,.ends outcome) => settle w p due outcome

def rest (w : World) (p : Probing) (due : Nat) : World × Turn Probing (Tracker × LinkError) :=
  if due ≤ w.now then
    let p := { p with tracker := p.tracker.recordSent }
    runExchange w p (p.following w.now due)
      (.fresh { link := p.link, tag := p.tag, payload := probePayload
                limit := some p.settings.timeout.millis })
  else if w.connected p.link then (w,.waits { p with stage := .resting due })
  else (w,.ends (p.tracker,lost w p.link))

def run (w : World) (p : Probing) : World × Turn Probing (Tracker × LinkError) :=
  match p.stage with
  | .unstarted =>
    if p.settings.enabled then rest w p (w.now + p.settings.interval.millis)
    else if w.connected p.link then (w,.waits { p with stage := .dormant })
    else (w,.ends (p.tracker,lost w p.link))
  | .dormant =>
    if w.connected p.link then (w,.waits p) else (w,.ends (p.tracker,lost w p.link))
  | .resting due => rest w p due
  | .asking due x => runExchange w p due x

def drop (w : World) (p : Probing) : World :=
  match p.stage with
  | .asking _ x => x.drop w
  | _ => w

def wakes (p : Probing) : List Nat :=
  match p.stage with
  | .resting due => [due]
  | .asking _ x => x.wakes
  | _ => []

end Probing
end Tether.Cluster
