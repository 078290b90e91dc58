import Tether.Proofs.Batch.Senders

/-! A batcher and all who use its queue, under every order in which they take their steps. Each batch goes to
the sink by itself; what the sink returns for it is not fixed, and its answers are delivered one by one, in any
order and next to those of other batches. What was delivered and which slots were emptied is kept as a record. -/
namespace Tether

namespace Pipeline

/-- Where a batch is: with the sink, or its answers are being delivered. -/
inductive FlushStage
  | given
  | answered (result : Except BatchError (List Event)) (left : List Event)

structure Flush where
  batch : List Event
  stage : FlushStage := .given

namespace Flush

def left (f : Flush) : List Event :=
  match f.stage with
  | .given => []
  | .answered _ left => left

def result? (f : Flush) : Option (Except BatchError (List Event)) :=
  match f.stage with
  | .given => none
  | .answered result _ => some result

/-- All answers to the batch, once the sink has returned. -/
def answers (f : Flush) : List Event :=
  match f.stage with
  | .given => []
  | .answered result _ => answersFor f.batch result

theorem answers_eq {f : Flush} {result : Except BatchError (List Event)} (h : f.result? = some result) :
    f.answers = answersFor f.batch result := by
  rcases f with ⟨batch,_ | ⟨other,left⟩⟩
  · simp [result?] at h
  · obtain rfl : other = result := by simpa [result?] using h
    rfl

def isDone (f : Flush) : Bool := f.result?.isSome && f.left.isEmpty

end Flush
end Pipeline

structure Pipeline extends Senders where
  collector : Collector := {}
  flushes : List Pipeline.Flush := []
  /-- The collecting loop has ended. -/
  ended : Bool := false
  returned : Bool := false
  /-- Answers that were handed to the queue, and the slots that were given up or whose answer was taken. -/
  delivered : List Event := []
  emptied : List Uid := []

namespace Pipeline

inductive Act
  | call (event : Event)
  | enter (call : Nat)
  | push (call : Nat)
  | close
  | receive (now : Nat)
  | expire
  | finish
  | process (flush : Nat) (result : Except BatchError (List Event))
  | deliver (flush answer : Nat)
  | conclude
  | look (uid : Uid)
  | drop (uid : Uid)
  | ring (bell : Nat)
  | register (waiter bell : Nat)
  | unregister (waiter : Nat)

def add (p : Pipeline) (collected : Collector × Collector.Flush) : Pipeline :=
  { p with
    collector := collected.1
    flushes := p.flushes ++ collected.2.toList.map fun batch => { batch } }

def receive (settings : CollectorSettings) (p : Pipeline) (now : Nat) : Pipeline :=
  if p.ended then p
  else match p.queue.take with
    | (queue,some e) => { p with queue }.add (p.collector.receive settings now e)
    | (_,none) => p

def expire (p : Pipeline) : Pipeline := if p.ended then p else p.add p.collector.expire

/-- The queue has ended once it is closed and empty, and no call holds it any more. -/
def finish (p : Pipeline) : Pipeline :=
  if p.queue.queued.isEmpty && !p.queue.isOpen && p.calls.all (!·.isUnderway) then
    { p.add p.collector.finish with ended := true }
  else p

def process (p : Pipeline) (k : Nat) (result : Except BatchError (List Event)) : Pipeline :=
  match p.flushes[k]? with
  | some ⟨batch,.given⟩ =>
    { p with flushes := p.flushes.set k ⟨batch,.answered result (answersFor batch result)⟩ }
  | _ => p

/-- One of the answers that are left is handed to the queue. -/
def deliver (p : Pipeline) (k i : Nat) : Pipeline :=
  match p.flushes[k]? with
  | some ⟨batch,.answered result left⟩ => match left[i]? with
    | some e =>
      { p with
        flushes := p.flushes.set k ⟨batch,.answered result (left.eraseIdx i)⟩
        queue := (p.queue.answer e).1
        delivered := p.delivered ++ [e] }
    | none => p
  | _ => p

def conclude (p : Pipeline) : Pipeline :=
  if p.ended && p.flushes.all (·.isDone) then { p with returned := true } else p

/-- Somebody looks for an answer, and takes it if it is there. -/
def look (p : Pipeline) (uid : Uid) : Pipeline :=
  { p with
    queue := (p.queue.look uid).1
    emptied := match p.queue.slot? uid with
      | some (.ready _) => uid :: p.emptied
      | _ => p.emptied }

def drop (p : Pipeline) (uid : Uid) : Pipeline :=
  { p with
    queue := (p.queue.dropSlot uid).1
    emptied := if (p.queue.slot? uid).isSome then uid :: p.emptied else p.emptied }

def step (settings : CollectorSettings) (p : Pipeline) : Act → Pipeline
  | .call e => { p with toSenders := p.call e }
  | .enter k => { p with toSenders := (p.enter k).1 }
  | .push k => { p with toSenders := (p.push k).1 }
  | .close => { p with queue := p.queue.close }
  | .receive now => p.receive settings now
  | .expire => p.expire
  | .finish => p.finish
  | .process k result => p.process k result
  | .deliver k i => p.deliver k i
  | .conclude => p.conclude
  | .look uid => p.look uid
  | .drop uid => p.drop uid
  | .ring bell => { p with queue := p.queue.ring bell }
  | .register waiter bell => { p with queue := p.queue.register waiter bell }
  | .unregister waiter => { p with queue := p.queue.unregister waiter }

def run (settings : CollectorSettings) (p : Pipeline) (acts : List Act) : Pipeline :=
  acts.foldl (step settings) p

@[simp] theorem run_nil (settings : CollectorSettings) (p : Pipeline) : p.run settings [] = p := rfl

@[simp] theorem run_cons (settings : CollectorSettings) (p : Pipeline) (a : Act) (acts : List Act) :
    p.run settings (a :: acts) = (p.step settings a).run settings acts := rfl

/-! ### Steps taken in a row -/

theorem run_call (settings : CollectorSettings) (p : Pipeline) (e : Event) :
    p.run settings [.call e,.enter p.calls.length,.push p.calls.length] =
      match p.queue.send e with
      | .ok queue => { p with queue, calls := p.calls ++ [⟨e,.accepted⟩] }
      | .error error => { p with calls := p.calls ++ [⟨e,.refused error⟩] } := by
  have hsend := p.send_eq e
  cases hq : p.queue.send e <;> rw [hq] at hsend <;> simp [step,hsend.1]

/-- The answers to a batch, when nothing comes between them. -/
theorem run_deliver (settings : CollectorSettings) {k : Nat} {batch left : List Event}
    {result : Except BatchError (List Event)} {p : Pipeline}
    (hk : p.flushes[k]? = some ⟨batch,.answered result left⟩) :
    p.run settings (List.replicate left.length (.deliver k 0)) =
      { p with
        flushes := p.flushes.set k ⟨batch,.answered result []⟩
        queue := deliverAnswers p.queue left
        delivered := p.delivered ++ left } := by
  have hlt : k < p.flushes.length := (List.getElem?_eq_some_iff.mp hk).1
  induction left generalizing p with
  | nil =>
    have hsame : p.flushes.set k ⟨batch,.answered result []⟩ = p.flushes := by
      rw [← (List.getElem?_eq_some_iff.mp hk).2]
      exact List.set_getElem_self ..
    simp [hsame,deliverAnswers]
  | cons e left ih =>
    have hstep : p.step settings (.deliver k 0) =
        { p with
          flushes := p.flushes.set k ⟨batch,.answered result left⟩
          queue := (p.queue.answer e).1
          delivered := p.delivered ++ [e] } := by
      simp [step,deliver,hk]
    rw [List.length_cons,List.replicate_succ,run_cons,hstep,ih (by simp [hlt]) (by simpa using hlt)]
    simp [deliverAnswers]

end Pipeline
end Tether
