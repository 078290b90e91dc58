import Tether.Batch.Buffer
import Tether.Batch.Queue

/-! The collecting loop. Events are buffered until a limit is reached or the first of them has waited
long enough; what is flushed goes to a sink, and every event of it is answered once, by the sink's
first answer to it or else by an error object. -/
namespace Tether

structure CollectorSettings where
  limits : BatchLimits := {}
  /-- The longest wait, in the unit of the clock. -/
  maxWait : Nat := 5000
deriving DecidableEq, Repr, Inhabited

structure Collector where
  buffer : BatchBuffer := {}
  deadline : Option Nat := none
deriving Repr, Inhabited

namespace Collector

abbrev Flush := Option (List Event)

def flush (c : Collector) : Collector × Flush :=
  let (events,buffer) := c.buffer.take
  (⟨buffer,none⟩,if events.isEmpty then none else some events)

/-- An event arrives at a time. -/
def receive (settings : CollectorSettings) (now : Nat) (c : Collector) (e : Event) :
    Collector × Flush :=
  let deadline := if c.buffer.isEmpty then some (now + settings.maxWait) else c.deadline
  let c : Collector := ⟨c.buffer.add e,deadline⟩
  if c.buffer.isFull settings.limits then c.flush else (c,none)

def expire (c : Collector) : Collector × Flush := c.flush

def finish (c : Collector) : Collector × Flush := c.flush

def isDue (now : Nat) (c : Collector) : Bool :=
  match c.deadline with
  | some t => t ≤ now
  | none => false

end Collector

/-- The body that answers an event when its sink did not. -/
def errorBody (text : String) : Json := .object [("error",.str text)]

/-- The sink's answers as far as they count: the first one to each event still unanswered. -/
def firstAnswers (unanswered : List Uid) : List Event → List Event × List Uid
  | [] => ([],unanswered)
  | answer :: rest =>
    if unanswered.contains answer.uid then
      let (answers,left) := firstAnswers (unanswered.filter (· != answer.uid)) rest
      (answer :: answers,left)
    else firstAnswers unanswered rest

def answersFor (batch : List Event) (result : Except BatchError (List Event)) : List Event :=
  let uids := batch.map Event.uid
  match result with
  | .ok answers =>
    let (found,left) := firstAnswers uids answers
    found ++ left.map fun uid => ⟨uid,errorBody "no response"⟩
  | .error e => uids.map fun uid => ⟨uid,errorBody e.message⟩

/-- Puts the answers of a batch into their slots. -/
def deliverAnswers (q : EventQueue) (answers : List Event) : EventQueue :=
  answers.foldl (fun q e => (q.answer e).1) q

end Tether
