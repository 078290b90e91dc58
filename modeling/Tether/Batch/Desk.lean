import Tether.Batch.Queue

/-! A queue together with the tasks asleep on it: waiters for answers, and receivers of events. The
receiving end is a lock; receivers hold it in the order they came, and while one of them holds it
nobody else can take an event. -/
namespace Tether

inductive Woken
  | answer (answer : Option Json)
  | event (event : Option Event)
deriving Repr

structure DeskWaiter where
  id : String
  number : Nat
  uid : Uid
  stage : WaitStage
deriving Repr

structure QueueDesk where
  queue : EventQueue := {}
  waiters : List DeskWaiter := []
  receivers : List String := []
  nextNumber : Nat := 0
deriving Repr, Inhabited

namespace QueueDesk

def wait (d : QueueDesk) (id : String) (uid : Uid) : QueueDesk :=
  { d with
    waiters := d.waiters ++ [⟨id,d.nextNumber,uid,.looking⟩]
    nextNumber := d.nextNumber + 1 }

def receive (d : QueueDesk) (id : String) : QueueDesk := { d with receivers := d.receivers ++ [id] }

/-- The next event without waiting; none while a receiver holds the lock. -/
def tryTake (d : QueueDesk) : QueueDesk × Option Event :=
  if d.receivers.isEmpty then
    let (q,e) := d.queue.take
    ({ d with queue := q },e)
  else (d,none)

/-- Serves receivers from the front until one has to wait. -/
def serve (q : EventQueue) : List String → EventQueue × List String × List (String × Woken)
  | [] => (q,[],[])
  | id :: rest =>
    match q.take with
    | (q,some e) =>
      let (q,left,woken) := serve q rest
      (q,left,(id,.event (some e)) :: woken)
    | (_,none) =>
      if q.isOpen then (q,id :: rest,[])
      else
        let (q,left,woken) := serve q rest
        (q,left,(id,.event none) :: woken)

/-- Lets every waiter run, in the order they came. -/
def runWaiters (q : EventQueue) : List DeskWaiter → EventQueue × List DeskWaiter × List (String × Woken)
  | [] => (q,[],[])
  | w :: rest =>
    let (q,stage) := WaitStage.run w.uid w.number WaitStage.settleSteps q w.stage
    let (q,left,woken) := runWaiters q rest
    match stage with
    | .finished answer => (q,left,(w.id,.answer answer) :: woken)
    | stage => (q,{ w with stage } :: left,woken)

/-- Runs every task until all of them sleep or have ended. -/
def settle (d : QueueDesk) : QueueDesk × List (String × Woken) :=
  let (q,receivers,taken) := serve d.queue d.receivers
  let (q,waiters,answered) := runWaiters q d.waiters
  ({ d with queue := q, receivers, waiters },taken ++ answered)

end QueueDesk
end Tether
