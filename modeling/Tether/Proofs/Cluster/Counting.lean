import Tether.Cluster.Working

/-! What goes on over the links of a world does not concern the loops of its workers: it leaves what is
known of them alone, and nothing that it counts is a reconnect. -/
namespace Tether

theorem Traffic.reconnects_countAll (t : Traffic) (events : List TrafficEvent) :
    (t.countAll events).reconnects = t.reconnects + .ofNat (events.count .reconnect) := by
  induction events generalizing t with
  | nil => exact (UInt64.add_zero _).symm
  | cons event events ih =>
    have hcons : t.countAll (event :: events) = (t.count event).countAll events := rfl
    rw [hcons,ih]
    cases event with
    | reconnect => simp [count,UInt64.ofNat_add,UInt64.add_assoc,UInt64.add_comm 1]
    | _ => simp [count]

namespace Cluster

/-- Nothing happened that concerns a worker. -/
structure World.Aside (w w' : World) : Prop where
  workers : w'.workers = w.workers
  reconnects : w'.traffics.map Traffic.reconnects = w.traffics.map Traffic.reconnects

variable {w w' w'' : World}

namespace World

theorem Aside.refl (w : World) : w.Aside w := ⟨rfl,rfl⟩

theorem Aside.trans (h : w.Aside w') (h' : w'.Aside w'') : w.Aside w'' :=
  ⟨h'.workers.trans h.workers,h'.reconnects.trans h.reconnects⟩

theorem aside_onLink (w : World) (i : Nat) (f : Connection → Connection) : w.Aside (w.onLink i f) :=
  ⟨rfl,rfl⟩

theorem reconnects_count (w : World) (k : Nat) (events : List TrafficEvent) :
    (w.count k events).traffics.map Traffic.reconnects =
      (w.traffics.map Traffic.reconnects).modify k (· + .ofNat (events.count .reconnect)) := by
  refine List.ext_getElem? fun j => ?_
  simp only [count,List.getElem?_map,List.getElem?_modify]
  cases w.traffics[j]? with
  | none => rfl
  | some t => split <;> simp [Traffic.reconnects_countAll]

theorem aside_count (w : World) (k : Nat) {events : List TrafficEvent} (h : .reconnect ∉ events) :
    w.Aside (w.count k events) := by
  refine ⟨rfl,?_⟩
  rw [reconnects_count,List.count_eq_zero_of_not_mem h]
  exact (congrArg _ (funext UInt64.add_zero)).trans (List.modify_id k _)

theorem aside_countOn (w : World) (link : Nat) {events : List TrafficEvent} (h : .reconnect ∉ events) :
    w.Aside (w.countOn link events) := by
  unfold countOn
  split
  · exact w.aside_count _ h
  · exact .refl w

theorem aside_closeLink (w : World) (i : Nat) (reason : String) : w.Aside (w.closeLink i reason) :=
  w.aside_onLink i _

theorem aside_releaseTicket (w : World) (i : Nat) (ticket : Ticket) : w.Aside (w.releaseTicket i ticket) :=
  w.aside_onLink i _

theorem aside_pour (w : World) (pipe : Nat) (bytes : List UInt8) : w.Aside (w.pour pipe bytes) := by
  unfold pour
  split
  · exact .refl w
  · exact ⟨rfl,rfl⟩

theorem aside_endPipe (w : World) (pipe : Nat) : w.Aside (w.endPipe pipe) := ⟨rfl,rfl⟩

theorem aside_onQueue (w : World) (i : Nat) (f : EventQueue → EventQueue) : w.Aside (w.onQueue i f) :=
  ⟨rfl,rfl⟩

theorem aside_onMaster (w : World) (f : Master → Master) : w.Aside (w.onMaster f) := ⟨rfl,rfl⟩

theorem aside_addPeer (w : World) (peer : Peer) : w.Aside (w.addPeer peer) := ⟨rfl,rfl⟩

theorem aside_arrive (w : World) (addr : String) (source sink : Nat) :
    w.Aside (w.arrive addr source sink) := by
  unfold arrive
  split
  · exact w.aside_onMaster _
  · exact w.aside_endPipe sink

theorem aside_addLink (w : World) (name : String) (role : Role) (addr : String) (s : Stream) :
    w.Aside (w.addLink name role addr s).1 := by
  have hlinked : w.Aside { w with
      links := w.links ++ [Connection.establish name role addr (firstCounter w.links.length)]
      streams := w.streams ++ [s] } := ⟨rfl,rfl⟩
  have hopened : TrafficEvent.reconnect ∉ [TrafficEvent.opened] := by simp
  exact (hlinked.trans (aside_count _ s.traffic hopened)).trans ⟨rfl,rfl⟩

theorem aside_failWrite (w : World) (i : Nat) (fault : IoFault) : w.Aside (w.failWrite i fault).1 :=
  (w.aside_countOn i (by simp)).trans (aside_closeLink ..)

theorem aside_writeBytes (w : World) (i : Nat) (bytes : List UInt8) (frames : Nat) :
    w.Aside (w.writeBytes i bytes frames).1 := by
  unfold writeBytes
  split
  · rename_i c s hlink hstream
    split
    · exact .refl w
    · cases s.allowance with
      | none => exact (w.aside_pour ..).trans (aside_count _ _ (by simp))
      | some most =>
        have hpoured : w.Aside ((w.pour s.sink (bytes.take most)).onStream i fun s =>
            { s with allowance := some (most - bytes.length) }) :=
          (w.aside_pour ..).trans ⟨rfl,rfl⟩
        dsimp only
        split
        · exact hpoured.trans (aside_count _ _ (by simp))
        · exact hpoured.trans (aside_failWrite ..)
  · exact .refl w

theorem aside_writeMessage (w : World) (i : Nat) (m : Message) : w.Aside (w.writeMessage i m).1 := by
  unfold writeMessage
  cases w.streams[i]? with
  | none => exact .refl w
  | some s =>
    dsimp only
    split
    · exact .refl w
    · split
      · exact .refl w
      · exact w.aside_writeBytes ..

theorem aside_writeChunk (w : World) (i number : Nat) (place : ChunkPlace) (piece : List UInt8) :
    w.Aside (w.writeChunk i number place piece).1 := by
  unfold writeChunk
  cases w.streams[i]? with
  | none => exact .refl w
  | some s =>
    dsimp only
    split
    · exact .refl w
    · exact w.aside_writeBytes ..

theorem aside_openRequest (w : World) (link : Nat) (tag : Tag) (gated : Bool) :
    w.Aside (w.openRequest link tag gated).1 := by
  unfold openRequest
  cases w.links[link]? with
  | none => exact .refl w
  | some c =>
    dsimp only
    split
    · exact .refl w
    · split
      · exact .refl w
      · exact w.aside_onLink ..

end World

open World

/-! ### Requests -/

namespace Exchange

theorem aside_await (w : World) (link : Nat) (ticket : Ticket) (limit deadline : Option Nat) :
    w.Aside (await w link ticket limit deadline).1 := by
  unfold await
  split
  · exact w.aside_releaseTicket ..
  · split
    · split
      · exact (w.aside_countOn _ (by simp)).trans (aside_releaseTicket ..)
      · exact .refl w
    · exact .refl w

theorem aside_begin (w : World) (r : Request) : w.Aside (begin w r).1 := by
  unfold begin
  have hopen := w.aside_openRequest r.link r.tag r.gated
  generalize w.openRequest r.link r.tag r.gated = opened at hopen ⊢
  rcases opened with ⟨w₁,error | ticket⟩
  · exact hopen
  · have hwrite := w₁.aside_writeMessage r.link ⟨ticket.counter,r.tag,false,r.payload⟩
    dsimp only
    generalize w₁.writeMessage r.link ⟨ticket.counter,r.tag,false,r.payload⟩ = written at hwrite ⊢
    rcases written with ⟨w₂,error | ⟨⟩⟩
    · exact (hopen.trans hwrite).trans (aside_releaseTicket ..)
    · exact ((hopen.trans hwrite).trans (w₂.aside_countOn _ (by simp))).trans (aside_await ..)

theorem aside_run (w : World) (x : Exchange) : w.Aside (x.run w).1 := by
  cases x with
  | fresh r => exact aside_begin w r
  | inFlight link ticket limit deadline => exact aside_await ..

theorem aside_drop (w : World) (x : Exchange) : w.Aside (x.drop w) := by
  cases x with
  | fresh r => exact .refl w
  | inFlight link ticket limit deadline => exact w.aside_releaseTicket ..

end Exchange

namespace Greeting

theorem aside_settle (w : World) (link : Nat) (turn : Turn Exchange Outcome) :
    w.Aside (settle w link turn).1 := by
  cases turn with
  | waits x => exact .refl w
  | ends outcome =>
    simp only [settle]
    cases w.links[link]? with
    | none => exact .refl w
    | some c => exact w.aside_onLink ..

theorem aside_run (w : World) (g : Greeting) : w.Aside (g.run w).1 := by
  cases g with
  | asked link x => exact (x.aside_run w).trans (aside_settle ..)
  | fresh link =>
    simp only [run]
    rcases (w.links[link]?).map Connection.beginHandshake with _ | error | c
    · exact .refl w
    · exact .refl w
    · exact ((w.aside_onLink ..).trans (Exchange.aside_begin ..)).trans (aside_settle ..)

theorem aside_drop (w : World) (g : Greeting) : w.Aside (g.drop w) := by
  cases g with
  | fresh link => exact .refl w
  | asked link x => exact x.aside_drop w

end Greeting

/-! ### Probes -/

namespace Probing

theorem aside_settle (w : World) (p : Probing) (due : Nat) (outcome : Outcome) :
    w.Aside (p.settle w due outcome).1 := by
  unfold settle
  dsimp only
  split
  case' h_3 => refine Aside.trans ?_ (aside_closeLink ..)
  all_goals
    split
    · exact w.aside_countOn _ (by simp)
    · exact .refl w

theorem aside_runExchange (w : World) (p : Probing) (due : Nat) (x : Exchange) :
    w.Aside (p.runExchange w due x).1 := by
  have hrun := x.aside_run w
  unfold runExchange
  generalize x.run w = ran at hrun ⊢
  rcases ran with ⟨w₁,x | outcome⟩
  · exact hrun
  · exact hrun.trans (aside_settle ..)

theorem aside_rest (w : World) (p : Probing) (due : Nat) : w.Aside (p.rest w due).1 := by
  unfold rest
  split
  · exact aside_runExchange ..
  · split <;> exact .refl w

theorem aside_run (w : World) (p : Probing) : w.Aside (p.run w).1 := by
  unfold run
  cases p.stage with
  | unstarted =>
    dsimp only
    split
    · exact aside_rest ..
    · split <;> exact .refl w
  | dormant =>
    dsimp only
    split <;> exact .refl w
  | resting due => exact aside_rest ..
  | asking due x => exact aside_runExchange ..

theorem aside_drop (w : World) (p : Probing) : w.Aside (p.drop w) := by
  unfold drop
  split
  · exact Exchange.aside_drop ..
  · exact .refl w

end Probing

/-! ### Uploads and workloads -/

namespace Sending

theorem aside_abort (w : World) (link : Nat) (u : Upload) (reason : String) :
    w.Aside (abort w link u reason).1 :=
  (w.aside_closeLink ..).trans (aside_releaseTicket ..)

theorem aside_stream (w : World) (link : Nat) (codec : Codec) (u : Upload) (content : Option (List UInt8))
    (fuel : Nat) : w.Aside (stream w link codec u content fuel).1 := by
  induction fuel generalizing w u content with
  | zero => exact .refl w
  | succ fuel ih =>
    unfold stream
    extract_lets chunk
    cases u.need chunk with
    | reply => exact w.aside_countOn _ (by simp)
    | read most =>
      rcases content with _ | _ | ⟨byte,rest⟩
      · exact aside_abort ..
      · exact aside_abort ..
      · exact ih ..
    | write place piece =>
      have hwrite := w.aside_writeChunk link u.index place piece
      dsimp only
      generalize w.writeChunk link u.index place piece = written at hwrite ⊢
      rcases written with ⟨w₁,error | ⟨⟩⟩
      · exact hwrite.trans (aside_releaseTicket ..)
      · exact hwrite.trans (ih ..)

theorem aside_prepare (w : World) (link : Nat) (codec : Codec) (path : String) :
    w.Aside (prepare w link codec path).1 := by
  unfold prepare
  dsimp only
  split
  · exact .refl w
  · have hopen := w.aside_openRequest link .file false
    generalize w.openRequest link .file false = opened at hopen ⊢
    rcases opened with ⟨w₁,error | ticket⟩ <;> exact hopen

theorem aside_run (w : World) (s : Sending) : w.Aside (s.run w).1 := by
  cases s with
  | inFlight link u =>
    simp only [run]
    split
    · exact w.aside_releaseTicket ..
    · exact .refl w
  | fresh link path =>
    simp only [run,begin]
    cases (w.streams[link]?).map Stream.codec with
    | none => exact .refl w
    | some codec =>
      have hprepare := aside_prepare w link codec path
      dsimp only
      generalize prepare w link codec path = prepared at hprepare ⊢
      rcases prepared with ⟨w₁,error | ⟨u,content⟩⟩
      · exact hprepare
      · dsimp only
        cases Upload.reserve codec.limits u.name with
        | error panic => exact hprepare.trans (w₁.aside_releaseTicket ..)
        | ok room =>
          dsimp only
          generalize 3 * u.total.toNat + u.size / Upload.readMax + 3 = fuel
          have hstream := aside_stream w₁ link codec u content fuel
          generalize stream w₁ link codec u content fuel = streamed at hstream ⊢
          rcases streamed with ⟨w₂,error | u'⟩ <;> exact hprepare.trans hstream

theorem aside_drop (w : World) (s : Sending) : w.Aside (s.drop w) := by
  cases s with
  | fresh link path => exact .refl w
  | inFlight link u => exact w.aside_releaseTicket ..

end Sending

namespace Work

theorem aside_nextRound (link size : Nat) (iterations : UInt32) (left : Nat) {w : World}
    {ran : World × Turn Exchange Outcome} (h : w.Aside ran.1) :
    w.Aside (nextRound link size iterations left ran).1 := by
  induction left, ran using nextRound.induct link size with
  | case1 left w' x =>
    rw [nextRound.eq_def]
    exact h
  | case2 left w' outcome e hbad =>
    rw [nextRound.eq_def]
    simpa only [hbad] using h
  | case3 w' outcome left hgood ih =>
    rw [nextRound.eq_def]
    simpa only [hgood] using ih (Aside.trans h ((echo link (Diagnostics.filler size)).aside_run w'))
  | case4 left w' outcome hgood hlast =>
    rw [nextRound.eq_def]
    rcases left with _ | _ | left
    · simpa only [hgood] using h
    · simpa only [hgood] using h
    · exact absurd rfl (hlast left)

theorem aside_runCrowd (w : World) (i : Nat) (turns : List (Turn Exchange Judged)) :
    w.Aside (runCrowd w i turns).1 := by
  induction turns generalizing w i with
  | nil => exact .refl w
  | cons turn rest ih =>
    cases turn with
    | ends judged => exact ih ..
    | waits x => exact (x.aside_run w).trans (ih ..)

theorem aside_run (w : World) (work : Work) : w.Aside (work.run w).1 := by
  cases work with
  | idle => exact .refl w
  | rounds link size iterations left x =>
    simp only [run]
    split
    · exact .refl w
    · exact aside_nextRound _ _ _ _ (x.aside_run w)
  | crowd requests turns =>
    have hcrowd := aside_runCrowd w 0 turns
    simp only [run]
    split <;> exact hcrowd
  | sending s =>
    have hrun := s.aside_run w
    simp only [run]
    generalize s.run w = ran at hrun ⊢
    rcases ran with ⟨w₁,s | (result | _)⟩ <;> exact hrun
  | string x =>
    have hrun := x.aside_run w
    simp only [run]
    generalize x.run w = ran at hrun ⊢
    rcases ran with ⟨w₁,x | outcome⟩ <;> exact hrun
  | crashed => exact .refl w

theorem aside_drop (w : World) (work : Work) : w.Aside (work.drop w) := by
  cases work with
  | idle => exact .refl w
  | rounds link size iterations left x => exact x.aside_drop w
  | crowd requests turns =>
    simp only [drop]
    induction turns generalizing w with
    | nil => exact .refl w
    | cons turn rest ih =>
      rw [List.foldl_cons]
      cases turn with
      | waits x => exact (x.aside_drop w).trans (ih ..)
      | ends judged => exact ih ..
  | sending s => exact s.aside_drop w
  | string x => exact x.aside_drop w
  | crashed => exact .refl w

end Work
end Cluster
end Tether
