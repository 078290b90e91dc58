import Tether.Cluster.Serving

/-! A batcher at work: it takes events off its queue, and every batch it flushes runs through the sink
on its own while further events are collected. It ends when the queue is closed and empty and no batch
is under way. -/
namespace Tether.Cluster

inductive FlushStage
  | fresh
  | running (run : SinkRun)

structure Flushing where
  batch : List Event
  stage : FlushStage := .fresh

structure Batching where
  batcher : Nat
  collector : Collector := {}
  flushes : List Flushing := []
  ending : Bool := false

namespace Batching

def beginFlush (w : World) (i : Nat) (b : Batcher) (batch : List Event) :
    World × Turn SinkRun SinkResult :=
  match b.sink with
  | .link link => SinkRun.forward w link batch
  | .worker worker => match (w.workers[worker]?).bind (·.loop.current) with
    | some link => SinkRun.forward w link batch
    | none => (w,.ends (.answered (.error Batch.disconnected)))
  | .rule rule =>
    let k := b.runs + 1
    let w := w.onBatcher i fun b =>
      { b with runs := k, batches := batch.map Event.uid :: b.batches }
    (w,SinkRun.beginRule w rule k batch)

def runFlush (w : World) (i : Nat) (f : Flushing) : World × Turn Flushing Unit :=
  let (w,turn) := match f.stage, w.batchers[i]? with
    | .fresh, some b => beginFlush w i b f.batch
    | .fresh, none => (w,.ends .crashed)
    | .running s, _ => s.run w
  match turn with
  | .waits s => (w,.waits { f with stage := .running s })
  | .ends .crashed => (w,.ends ())
  | .ends (.answered result) =>
    (w.onQueue i fun q => deliverAnswers q (answersFor f.batch result),.ends ())

def runFlushes (w : World) (i : Nat) : List Flushing → World × List Flushing
  | [] => (w,[])
  | f :: rest =>
    let (w,turn) := runFlush w i f
    let (w,rest) := runFlushes w i rest
    match turn with
    | .waits f => (w,f :: rest)
    | .ends () => (w,rest)

def add (b : Batching) : Collector × Collector.Flush → Batching
  | (collector,none) => { b with collector }
  | (collector,some batch) => { b with collector, flushes := b.flushes ++ [{ batch }] }

def collect (settings : CollectorSettings) (now : Nat) (b : Batching) : List Event → Batching
  | [] => b
  | e :: rest => collect settings now (b.add (b.collector.receive settings now e)) rest

def run (w : World) (b : Batching) : World × Option Batching :=
  match w.batchers[b.batcher]? with
  | none => (w,none)
  | some batcher =>
    let queued := batcher.queue.queued
    let b := b.collect batcher.settings w.now queued
    let w := if queued.isEmpty then w else w.onQueue b.batcher fun q => { q with queued := [] }
    let b := if b.collector.isDue w.now then b.add b.collector.expire else b
    let b :=
      if b.ending || batcher.queue.isOpen then b
      else { b.add b.collector.finish with ending := true }
    let (w,flushes) := runFlushes w b.batcher b.flushes
    if b.ending && flushes.isEmpty then (w,none) else (w,some { b with flushes })

def drop (w : World) (b : Batching) : World :=
  b.flushes.foldl (fun w f => match f.stage with
    | .running s => s.drop w
    | .fresh => w) w

def wakes (b : Batching) : List Nat :=
  b.collector.deadline.toList ++ b.flushes.flatMap fun f => match f.stage with
    | .running s => s.wakes
    | .fresh => []

end Batching
end Tether.Cluster
