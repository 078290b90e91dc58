import Tether.Cluster.Schedule
import Tether.Proofs.Cluster.Counting

/-! Whatever runs in a world beside its workers does not concern their loops: reading and serving, the far
ends, the master, the batchers and the calls of the script. Only a worker counts a reconnect. -/
namespace Tether.Cluster

open World

variable {w w' : World}

/-! ### Serving -/

namespace SinkRun

theorem aside_runExchange (w : World) (x : Exchange) : w.Aside (runExchange w x).1 := by
  have hrun := x.aside_run w
  unfold runExchange
  generalize x.run w = ran at hrun ⊢
  rcases ran with ⟨w₁,x | outcome⟩ <;> exact hrun

theorem aside_run (w : World) (s : SinkRun) : w.Aside (s.run w).1 := by
  cases s with
  | asking x => exact aside_runExchange w x
  | delayed due rule k batch =>
    simp only [run]
    split <;> exact .refl w

theorem aside_drop (w : World) (s : SinkRun) : w.Aside (s.drop w) := by
  cases s with
  | asking x => exact x.aside_drop w
  | delayed due rule k batch => exact .refl w

end SinkRun

namespace Dispatch

theorem aside_settleExchange (d : Dispatch) {asked : World × Turn Exchange Outcome} (h : w.Aside asked.1) :
    w.Aside (d.settleExchange asked).1 := by
  rcases asked with ⟨w₁,x | outcome⟩ <;> exact h

theorem aside_settleSink (d : Dispatch) {sunk : World × Turn SinkRun SinkResult} (h : w.Aside sunk.1) :
    w.Aside (d.settleSink sunk).1 := by
  rcases sunk with ⟨w₁,s | result | _⟩ <;> exact h

theorem aside_countRun (w : World) (d : Dispatch) : w.Aside (d.countRun w).1 := by
  unfold countRun
  split
  · exact .refl w
  · exact ⟨rfl,rfl⟩

theorem aside_batch (w : World) (d : Dispatch) (rule : SinkRule) : w.Aside (d.batch w rule).1 := by
  unfold batch
  split
  · exact .refl w
  · exact d.aside_settleSink (aside_countRun w d)

theorem aside_admission (w : World) (d : Dispatch) : w.Aside (d.admission w).1 := by
  unfold admission
  cases w.master with
  | none => exact .refl w
  | some m =>
    dsimp only
    split <;> exact ⟨rfl,rfl⟩

theorem aside_heartbeat (w : World) (d : Dispatch) : w.Aside (d.heartbeat w) := by
  unfold heartbeat
  split
  · exact .refl w
  · exact ⟨rfl,rfl⟩

theorem aside_serve (w : World) (d : Dispatch) (c : Connection) (service : Service) :
    w.Aside (d.serve w c service).1 := by
  unfold serve
  cases service with
  | receive directory => exact ⟨rfl,rfl⟩
  | batch rule => exact aside_batch w d rule
  | admission => exact aside_admission w d
  | heartbeat => exact aside_heartbeat w d
  | greet => exact w.aside_onLink ..
  | ask => exact d.aside_settleExchange (Exchange.aside_run ..)
  | hangUp => exact w.aside_closeLink ..
  | _ => exact .refl w

theorem aside_run (w : World) (d : Dispatch) : w.Aside (d.run w).1 := by
  unfold run
  split
  · unfold begin
    split
    · split
      · exact .refl w
      · split
        · exact aside_serve ..
        · exact .refl w
    · exact .refl w
  · split <;> exact .refl w
  · exact d.aside_settleExchange (Exchange.aside_run ..)
  · exact d.aside_settleSink (SinkRun.aside_run ..)

theorem aside_drop (w : World) (d : Dispatch) : w.Aside (d.drop w) := by
  unfold drop
  split
  · exact Exchange.aside_drop ..
  · exact SinkRun.aside_drop ..
  · exact .refl w

end Dispatch

/-! ### Reading -/

theorem World.aside_drain (w : World) (pipe : Nat) : w.Aside (w.drain pipe).1 := by
  unfold World.drain
  split
  · exact .refl w
  · split
    · exact .refl w
    · exact ⟨rfl,rfl⟩

namespace Reading

theorem reconnect_notMem_responseEvents (reply : Message) (resolved : Bool) :
    .reconnect ∉ Connection.responseEvents reply resolved := by
  simp only [Connection.responseEvents]
  split <;> split <;> simp

theorem aside_arrive (w : World) (r : Reading) (a : Arrival) : w.Aside (r.arrive w a).1 := by
  cases a with
  | frame size => exact w.aside_countOn _ (by simp)
  | fault e => exact w.aside_countOn _ (by simp)
  | message m =>
    simp only [arrive]
    split
    · split
      · exact .refl w
      · exact (w.aside_onLink ..).trans (aside_countOn _ _ (reconnect_notMem_responseEvents m _))
    · exact w.aside_countOn _ (by simp)

theorem aside_arriveAll (w : World) (r : Reading) (arrivals : List Arrival) :
    w.Aside (r.arriveAll w arrivals).1 := by
  induction arrivals generalizing w r with
  | nil => exact .refl w
  | cons a rest ih =>
    have harrived := r.aside_arrive w a
    unfold arriveAll
    generalize r.arrive w a = arrived at harrived ⊢
    rcases arrived with ⟨w₁,r₁,_ | reason⟩
    · exact harrived.trans (ih w₁ r₁)
    · exact harrived

theorem aside_read (w : World) (r : Reading) (s : Stream) : w.Aside (r.read w s).1 := by
  have hdrained := w.aside_drain s.source
  unfold read
  generalize w.drain s.source = drained at hdrained ⊢
  obtain ⟨w₁,bytes,ended⟩ := drained
  dsimp only
  generalize (if bytes.isEmpty = true then (s.inbound,[]) else s.inbound.read s.codec bytes) = found
  obtain ⟨inbound,arrivals⟩ := found
  dsimp only
  generalize hnoted : (if bytes.isEmpty = true then w₁ else w₁.onStream r.link fun s => { s with inbound }) = w₂
  have hkept : w₁.Aside w₂ := by
    rw [← hnoted]
    split <;> exact ⟨rfl,rfl⟩
  have harrived := r.aside_arriveAll w₂ arrivals
  generalize r.arriveAll w₂ arrivals = arrived at harrived ⊢
  have hall := (hdrained.trans hkept).trans harrived
  rcases arrived with ⟨w₃,r₃,_ | reason⟩
  · dsimp only
    split
    · exact hall
    · split
      · exact hall
      · exact hall.trans (aside_countOn _ _ (by simp))
  · exact hall

theorem aside_answer (w : World) (d : Dispatch) (reply : Reply) : w.Aside (answer w d reply) := by
  have hwritten := w.aside_writeMessage d.link (reply.message d.counter)
  unfold answer
  generalize w.writeMessage d.link (reply.message d.counter) = written at hwritten ⊢
  rcases written with ⟨w₁,error | ⟨⟩⟩
  · exact hwritten
  · exact hwritten.trans (aside_countOn _ _ (by simp))

theorem aside_serveAll (w : World) (served : List Dispatch) : w.Aside (serveAll w served).1 := by
  induction served generalizing w with
  | nil => exact .refl w
  | cons d rest ih =>
    have hran := d.aside_run w
    unfold serveAll
    generalize d.run w = ran at hran ⊢
    rcases ran with ⟨w₁,d₁ | reply | _⟩
    · exact hran.trans (ih w₁)
    · exact (hran.trans (aside_answer ..)).trans (ih _)
    · exact hran.trans (ih w₁)

theorem aside_finish (w : World) (r : Reading) (s : Stream) (reason : String) :
    w.Aside (r.finish w s reason) := by
  unfold finish
  extract_lets w₁ w₂
  have hdropped : w.Aside w₁ := by
    simp only [w₁]
    generalize r.served = served
    clear w₂ w₁
    induction served generalizing w with
    | nil => exact .refl w
    | cons d rest ih => exact (d.aside_drop w).trans (ih _)
  have hclosed : w₁.Aside (w₂.endPipe s.sink) := ⟨rfl,rfl⟩
  exact (hdropped.trans hclosed).trans (aside_count _ _ (by simp))

theorem aside_run (w : World) (r : Reading) : w.Aside (r.run w).1 := by
  unfold run
  split
  · rename_i c s hlink hstream
    split
    · exact r.aside_finish ..
    · have hread := r.aside_read w s
      generalize r.read w s = read at hread ⊢
      rcases read with ⟨w₁,r₁,_ | reason⟩
      · exact hread.trans (aside_serveAll ..)
      · exact hread.trans (aside_finish ..)
  · exact .refl w

end Reading

/-! ### The far ends -/

namespace Far

theorem aside_send (w : World) (i : Nat) (m : Message) (close : Bool) : w.Aside (send w i m close) := by
  unfold send
  split
  · exact .refl w
  · dsimp only
    split
    · exact (w.aside_pour ..).trans (aside_endPipe ..)
    · exact w.aside_pour ..

theorem aside_answer (w : World) (i : Nat) (table : AutoTable) (request : Message) :
    w.Aside (answer w i table request) := by
  unfold answer
  split
  · exact .refl w
  · split
    · exact .refl w
    · dsimp only
      split
      · exact aside_send ..
      · exact ⟨rfl,rfl⟩

theorem aside_receive (w : World) (i : Nat) (table : AutoTable) (r : Reassembler) (frames : List Frame) :
    w.Aside (receive w i table r frames).1 := by
  induction frames generalizing w r with
  | nil => exact .refl w
  | cons frame rest ih =>
    unfold receive
    rcases r.push limits frame with ⟨r₁,fault | _ | m⟩
    · exact ih w r₁
    · exact ih w r₁
    · exact (aside_answer ..).trans (ih _ r₁)

theorem aside_run (w : World) (i : Nat) : w.Aside (run w i).1 := by
  unfold run
  split
  · exact .refl w
  · rename_i p hp
    have hdrained := w.aside_drain p.source
    generalize w.drain p.source = drained at hdrained ⊢
    obtain ⟨w₁,bytes,ended⟩ := drained
    dsimp only
    split
    · exact hdrained
    · exact (hdrained.trans (aside_receive w₁ i p.table p.reassembler _)).trans ⟨rfl,rfl⟩

end Far

/-! ### The master -/

namespace Admitting

theorem aside_adopt (w : World) (m : Master) (addr : String) (source sink : Nat) :
    w.Aside (adopt w m addr source sink) := by
  have hadded := w.aside_addLink m.name .acceptor addr
    { codec := m.codec, source, sink, traffic := m.traffic, registry := m.registry }
  exact hadded.trans ⟨rfl,rfl⟩

theorem aside_check (w : World) : w.Aside (check w) := by
  unfold check
  split
  · exact .refl w
  · rename_i m hm
    dsimp only
    generalize m.roster.expire w.tick.links m.expiry w.tick.wall = swept
    obtain ⟨roster,links,stale⟩ := swept
    dsimp only
    split
    · exact ⟨rfl,rfl⟩
    · have hswept : w.Aside ({ w.tick with links }.onMaster fun m => { m with roster }) := ⟨rfl,rfl⟩
      exact hswept.trans (aside_count _ m.traffic (by simp))

theorem aside_checkDue (w : World) (interval due fuel : Nat) : w.Aside (checkDue w interval due fuel).1 := by
  induction fuel generalizing w due with
  | zero => exact .refl w
  | succ fuel ih =>
    unfold checkDue
    split
    · exact (aside_check w).trans (ih ..)
    · exact .refl w

theorem aside_acceptAll (w : World) (m : Master) (arriving : List Arriving) :
    w.Aside (acceptAll w m arriving).1 := by
  induction arriving generalizing w with
  | nil => exact .refl w
  | cons a rest ih =>
    unfold acceptAll
    cases a with
    | stream addr source sink => exact (aside_adopt ..).trans (ih _)
    | fault error =>
      have hcounted : w.Aside (w.count m.traffic [.error]) := w.aside_count _ (by simp)
      cases error with
      | io => exact hcounted
      | _ => exact hcounted.trans (ih _)

theorem aside_refuse (w : World) (arriving : List Arriving) : w.Aside (refuse w arriving) := by
  induction arriving generalizing w with
  | nil => exact .refl w
  | cons a rest ih =>
    cases a with
    | stream addr source sink => exact (w.aside_endPipe sink).trans (ih _)
    | fault error => exact ih w

theorem aside_stop (w : World) (m : Master) : w.Aside (stop w m) := by
  have hclosed : w.Aside { w with links := (m.roster.stop w.links).2 } := ⟨rfl,rfl⟩
  exact (hclosed.trans (aside_refuse _ m.arriving)).trans (aside_onMaster ..)

theorem aside_run (w : World) (a : Admitting) : w.Aside (a.run w).1 := by
  unfold run
  split
  · exact .refl w
  · rename_i m hm
    split
    · exact .refl w
    · split
      · exact aside_stop w m
      · have hchecked := aside_checkDue w m.interval a.nextCheck (w.now / max 1 m.interval + 1)
        generalize checkDue w m.interval a.nextCheck (w.now / max 1 m.interval + 1) = checked at hchecked ⊢
        obtain ⟨w₁,nextCheck⟩ := checked
        have haccepted := aside_acceptAll w₁ m m.arriving
        dsimp only
        generalize acceptAll w₁ m m.arriving = accepted at haccepted ⊢
        obtain ⟨w₂,rest,failed⟩ := accepted
        dsimp only
        split
        · exact hchecked.trans haccepted
        · exact (hchecked.trans haccepted).trans (aside_onMaster ..)

end Admitting

/-! ### The batchers -/

namespace Batching

theorem aside_beginFlush (w : World) (i : Nat) (b : Batcher) (batch : List Event) :
    w.Aside (beginFlush w i b batch).1 := by
  unfold beginFlush
  cases b.sink with
  | link link => exact SinkRun.aside_runExchange ..
  | worker worker =>
    dsimp only
    split
    · exact SinkRun.aside_runExchange ..
    · exact .refl w
  | rule rule => exact ⟨rfl,rfl⟩

theorem aside_runFlush (w : World) (i : Nat) (f : Flushing) : w.Aside (runFlush w i f).1 := by
  unfold runFlush
  dsimp only
  split
  case' h_3 =>
    dsimp only
    refine Aside.trans ?_ (World.aside_onQueue ..)
  all_goals
    split
    · exact aside_beginFlush ..
    · exact .refl w
    · exact SinkRun.aside_run ..

theorem aside_runFlushes (w : World) (i : Nat) (flushes : List Flushing) :
    w.Aside (runFlushes w i flushes).1 := by
  induction flushes generalizing w with
  | nil => exact .refl w
  | cons f rest ih =>
    have hboth := (aside_runFlush w i f).trans (ih _)
    unfold runFlushes
    dsimp only
    split <;> exact hboth

theorem aside_run (w : World) (b : Batching) : w.Aside (b.run w).1 := by
  unfold run
  split
  · exact .refl w
  · rename_i batcher hbatcher
    extract_lets queued b₁ w₁ b₂ ended b₃
    have htaken : w.Aside w₁ := by
      simp only [w₁]
      split <;> exact ⟨rfl,rfl⟩
    have hflushed := htaken.trans (aside_runFlushes w₁ b₃.batcher b₃.flushes)
    generalize runFlushes w₁ b₃.batcher b₃.flushes = flushed at hflushed ⊢
    obtain ⟨w₂,flushes⟩ := flushed
    dsimp only
    split <;> exact hflushed

theorem aside_drop (w : World) (b : Batching) : w.Aside (b.drop w) := by
  unfold drop
  generalize b.flushes = flushes
  induction flushes generalizing w with
  | nil => exact .refl w
  | cons f rest ih =>
    rw [List.foldl_cons]
    split
    · exact (SinkRun.aside_drop ..).trans (ih _)
    · exact ih w

end Batching

/-! ### The calls of the script -/

namespace Awaiting

theorem aside_run (w : World) (a : Awaiting) : w.Aside (a.run w).1 := by
  unfold run
  split
  · exact .refl w
  · extract_lets asleep
    split
    · exact .refl w
    · dsimp only
      split <;> exact ⟨rfl,rfl⟩

theorem aside_drop (w : World) (a : Awaiting) : w.Aside (a.drop w) := ⟨rfl,rfl⟩

end Awaiting

namespace Gathering

theorem aside_runBatching (w : World) (b : Option Batching) : w.Aside (runBatching w b).1 := by
  cases b with
  | none => exact .refl w
  | some b => exact b.aside_run w

theorem aside_collect (w : World) (batcher answered : Nat) (awaiting : Option Awaiting) (ids : List Uid) :
    w.Aside (collect w batcher answered awaiting ids).1 := by
  induction ids generalizing w answered awaiting with
  | nil => exact .refl w
  | cons uid rest ih =>
    have hgoes (w₁ : World) (a : Awaiting) (hw₁ : w.Aside w₁) :
        w.Aside (collect w₁ batcher answered (some a) (uid :: rest)).1 := by
      have hran := hw₁.trans (a.aside_run w₁)
      simp only [collect]
      generalize a.run w₁ = ran at hran ⊢
      rcases ran with ⟨w₂,a₁ | _ | answer⟩
      · exact hran
      · exact hran.trans (ih ..)
      · exact hran.trans (ih ..)
    cases awaiting with
    | none => exact hgoes _ (Awaiting.begin w batcher uid).2 ⟨rfl,rfl⟩
    | some a => exact hgoes w a (.refl w)

theorem aside_run (w : World) (g : Gathering) : w.Aside (g.run w).1 := by
  unfold run
  cases g.stage with
  | unconnected =>
    dsimp only
    split
    · exact .refl w
    · split
      · exact ⟨rfl,rfl⟩
      · exact .refl w
  | answering batching ids awaiting =>
    have hbatched := aside_runBatching w batching
    dsimp only
    generalize runBatching w batching = batched at hbatched ⊢
    obtain ⟨w₁,batching₁⟩ := batched
    have hcollected := aside_collect w₁ ((batching.map (·.batcher)).getD 0) g.answered awaiting ids
    dsimp only
    generalize collect w₁ ((batching.map (·.batcher)).getD 0) g.answered awaiting ids = collected
      at hcollected ⊢
    obtain ⟨w₂,answered,awaiting₁,ids₁⟩ := collected
    have hall := hbatched.trans hcollected
    dsimp only
    split
    · exact hall.trans ⟨rfl,rfl⟩
    · exact hall
  | closing batching =>
    have hbatched := aside_runBatching w batching
    dsimp only
    generalize runBatching w batching = batched at hbatched ⊢
    rcases batched with ⟨w₁,_ | batching₁⟩ <;> exact hbatched

theorem aside_drop (w : World) (g : Gathering) : w.Aside (g.drop w) := by
  unfold drop
  split
  · exact Batching.aside_drop ..
  · exact Batching.aside_drop ..
  · exact .refl w

end Gathering

namespace Call

theorem aside_lift {σ ρ : Type} (wrap : σ → Call) (finding : ρ → Finding) {ran : World × Turn σ ρ}
    (h : w.Aside ran.1) : w.Aside (lift wrap finding ran).1 := by
  rcases ran with ⟨w₁,s | r⟩ <;> exact h

theorem aside_liftWork (wrap : Work → Call) (finding : Work.Result → Finding)
    {ran : World × Turn Work Work.Result} (h : w.Aside ran.1) : w.Aside (liftWork wrap finding ran).1 := by
  unfold liftWork
  split
  · exact h
  · exact aside_lift wrap finding h

theorem aside_runResponse (w : World) (label : String) (a : Awaiting) (limit : Option (Nat × Nat)) :
    w.Aside (runResponse w label a limit).1 := by
  have hran := a.aside_run w
  unfold runResponse
  generalize a.run w = ran at hran ⊢
  rcases ran with ⟨w₁,a₁ | answer⟩
  · cases limit with
    | none => exact hran
    | some limit =>
      dsimp only
      split
      · exact hran.trans (a₁.aside_drop w₁)
      · exact hran
  · exact hran

theorem aside_runProbing (w : World) (id : String) (p : Probing) : w.Aside (runProbing w id p).1 := by
  have hran := p.aside_run w
  unfold runProbing
  generalize p.run w = ran at hran ⊢
  rcases ran with ⟨w₁,q | ⟨tracker,e⟩⟩
  · dsimp only
    split
    · exact hran
    · exact hran.trans ⟨rfl,rfl⟩
  · exact hran.trans ⟨rfl,rfl⟩

theorem aside_run (w : World) (id : String) (call : Call) : w.Aside (call.run w id).1 := by
  cases call with
  | settled finding => exact .refl w
  | greeting g => exact aside_lift _ _ (g.aside_run w)
  | bytes x => exact aside_lift _ _ (x.aside_run w)
  | reply x => exact aside_lift _ _ (x.aside_run w)
  | sending s => exact aside_lift _ _ (s.aside_run w)
  | numbers k => exact aside_liftWork _ _ (k.aside_run w)
  | work k => exact aside_liftWork _ _ (k.aside_run w)
  | ready link =>
    simp only [run,orWait]
    split <;> exact .refl w
  | closed link =>
    simp only [run,orWait]
    split <;> exact .refl w
  | serving d => exact aside_lift _ _ (d.aside_run w)
  | probing p => exact aside_runProbing w id p
  | response label a limit => exact aside_runResponse w label a limit
  | gathering g => exact aside_lift _ _ (g.aside_run w)

theorem aside_drop (w : World) (call : Call) : w.Aside (call.drop w) := by
  cases call with
  | greeting g => exact g.aside_drop w
  | bytes x => exact x.aside_drop w
  | reply x => exact x.aside_drop w
  | sending s => exact s.aside_drop w
  | numbers k => exact k.aside_drop w
  | work k => exact k.aside_drop w
  | serving d => exact d.aside_drop w
  | probing p => exact p.aside_drop w
  | response label a limit => exact a.aside_drop w
  | gathering g => exact g.aside_drop w
  | _ => exact .refl w

end Call

/-! ### Everything -/

namespace Activity

/-- Whatever runs but a worker. -/
theorem aside_run (w : World) (a : Activity) (h : ∀ b, a ≠ .working b) : w.Aside (a.run w).1 := by
  cases a with
  | reading r => exact r.aside_run w
  | listening peer => exact Far.aside_run w peer
  | watching link due ms =>
    simp only [run,watch]
    split
    · exact .refl w
    · exact .refl w
    · exact .refl w
    · split
      · exact w.aside_closeLink ..
      · exact .refl w
  | leaving name link =>
    simp only [run,leave]
    split
    · exact .refl w
    · exact w.aside_onMaster ..
  | sending peer due m close =>
    simp only [run]
    split
    · exact Far.aside_send ..
    · exact .refl w
  | admitting id a =>
    have hran := a.aside_run w
    simp only [run]
    generalize a.run w = ran at hran ⊢
    rcases ran with ⟨w₁,_ | a₁⟩
    · exact hran.trans ⟨rfl,rfl⟩
    · exact hran
  | working b => exact absurd rfl (h b)
  | batching id b =>
    have hran := b.aside_run w
    simp only [run]
    generalize b.run w = ran at hran ⊢
    rcases ran with ⟨w₁,_ | b₁⟩
    · exact hran.trans ⟨rfl,rfl⟩
    · exact hran
  | calling id call =>
    have hran := call.aside_run w id
    simp only [run]
    generalize call.run w id = ran at hran ⊢
    rcases ran with ⟨w₁,call₁ | finding⟩
    · exact hran
    · exact hran.trans ⟨rfl,rfl⟩

theorem aside_drop (w : World) (a : Activity) (h : ∀ b, a ≠ .working b) : w.Aside (a.drop w) := by
  cases a with
  | admitting id a =>
    simp only [drop]
    split
    · exact .refl w
    · exact (Admitting.aside_refuse ..).trans (aside_onMaster ..)
  | working b => exact absurd rfl (h b)
  | batching id b => exact b.aside_drop w
  | calling id call => exact call.aside_drop w
  | _ => exact .refl w

end Activity
end Tether.Cluster
