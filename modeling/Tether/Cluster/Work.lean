import Tether.Cluster.Sending
import Tether.Link.Diagnostics

/-! A workload while it runs: echoes one after the other, echoes at once, an upload, or one request. -/
namespace Tether.Cluster

abbrev Judged := Except LinkError Unit

inductive Work
  | idle
  | rounds (link size : Nat) (iterations : UInt32) (left : Nat) (exchange : Exchange)
  | crowd (requests : UInt32) (turns : List (Turn Exchange Judged))
  | sending (sending : Sending)
  | string (exchange : Exchange)
  /-- Its task is no more, and nobody is told. -/
  | crashed

namespace Work

abbrev Result := Except LinkError (Option Report)

def echo (link : Nat) (payload : List UInt8) : Exchange := .fresh { link, tag := .echo, payload }

def start (link : Nat) : Workload → Work
  | .idle => .idle
  | .performance size iterations =>
    .rounds link size iterations iterations.toNat (echo link (Diagnostics.filler size))
  | .concurrency requests =>
    .crowd requests ((List.range requests.toNat).map fun i => .waits (echo link (Diagnostics.body i)))
  | .sendFile path => .sending (.fresh link path)
  | .sendString size => .string (.fresh { link, tag := .string, payload := Diagnostics.filler size })

/-- The next round begins as soon as one has ended. -/
def nextRound (link size : Nat) (iterations : UInt32) :
    Nat → World × Turn Exchange Outcome → World × Turn Work Result
  | left, (w,.waits x) => (w,.waits (.rounds link size iterations left x))
  | left, (w,.ends outcome) => match Diagnostics.judgeLength size outcome, left with
    | .error e, _ => (w,.ends (.error e))
    | .ok (), left + 2 =>
      nextRound link size iterations (left + 1) ((echo link (Diagnostics.filler size)).run w)
    | .ok (), _ => (w,.ends (.ok (some (.performance size iterations))))

def runCrowd (w : World) (i : Nat) : List (Turn Exchange Judged) →
    World × List (Turn Exchange Judged)
  | [] => (w,[])
  | .ends judged :: rest =>
    let (w,rest) := runCrowd w (i + 1) rest
    (w,.ends judged :: rest)
  | .waits x :: rest =>
    let (w,turn) := x.run w
    let turn : Turn Exchange Judged := match turn with
      | .waits x => .waits x
      | .ends outcome => .ends (Diagnostics.judgeBody i outcome)
    let (w,rest) := runCrowd w (i + 1) rest
    (w,turn :: rest)

def allJudged : List (Turn Exchange Judged) → Option (List Judged)
  | [] => some []
  | .ends judged :: rest => (allJudged rest).map (judged :: ·)
  | .waits _ :: _ => none

def run (w : World) : Work → World × Turn Work Result
  | .idle => (w,.ends (.ok none))
  | .rounds link size iterations left x =>
    if left = 0 then (w,.ends (.ok (some (.performance size iterations))))
    else nextRound link size iterations left (x.run w)
  | .crowd requests turns =>
    let (w,turns) := runCrowd w 0 turns
    match allJudged turns with
    | none => (w,.waits (.crowd requests turns))
    | some judged =>
      (w,.ends ((Diagnostics.countFailures judged).map fun n => some (.concurrency requests n)))
  | .sending s => match s.run w with
    | (w,.waits s) => (w,.waits (.sending s))
    | (w,.ends (.result result)) => (w,.ends (result.map fun r => some (.file r)))
    | (w,.ends .crashed) => (w,.waits .crashed)
  | .string x => match x.run w with
    | (w,.waits x) => (w,.waits (.string x))
    | (w,.ends outcome) =>
      (w,.ends (outcome.map fun (_,reply) => some (.string (Utf8.lossy reply))))
  | .crashed => (w,.waits .crashed)

def drop (w : World) : Work → World
  | .idle => w
  | .rounds _ _ _ _ x => x.drop w
  | .crowd _ turns => turns.foldl (fun w turn => match turn with
    | .waits x => x.drop w
    | .ends _ => w) w
  | .sending s => s.drop w
  | .string x => x.drop w
  | .crashed => w

end Work
end Tether.Cluster
