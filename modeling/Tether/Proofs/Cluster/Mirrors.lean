import Tether.Cluster.World
import Tether.Proofs.Link.Closing
import Tether.Proofs.Link.Writing

/-! A link of the simulated world as an endpoint. The world does in one go what the endpoint does in
several steps: a write that breaks off has the link closed by the time it returns, so its endpoint takes
the steps of that call to close as well. -/
namespace Tether

namespace Connection

/-- No call to close is half way. -/
def Whole (c : Connection) : Prop := c.closeReason.isSome = true → c.halted = true

theorem Unmoved.whole {c c' : Connection} (h : c.Unmoved c') (hc : c.Whole) : c'.Whole := by
  intro hr
  rw [h.halted]
  exact hc (h.reason ▸ hr)

theorem Whole.halted_close {c : Connection} (hc : c.Whole) (reason : String) :
    (c.close reason).halted = true := by
  cases hr : c.closeReason with
  | none => simp [close,recordReason,hr,halt,failPending,disconnect]
  | some r =>
    simp only [close,recordReason,hr]
    exact hc (by simp [hr])

end Connection

theorem Session.run_proceed_of_none {s : Session} {k : Nat} (h : s.closes[k]? = none) (n : Nat) :
    s.run (List.replicate n (.proceed k)) = s := by
  induction n with
  | zero => rfl
  | succ n ih =>
    rw [List.replicate_succ,run_cons,step,h]
    exact ih

namespace Endpoint

/-- The steps of a call to close, if the next thing that is done is one. -/
def closing (e : Endpoint) : List Event := List.replicate 4 (.move (.proceed e.session.closes.length))

theorem run_proceeds (codec : Codec) (e : Endpoint) (n k : Nat) :
    e.run codec (List.replicate n (.move (.proceed k))) =
      { e with session := e.session.run (List.replicate n (.proceed k)) } := by
  induction n generalizing e with
  | zero => rfl
  | succ n ih =>
    rw [List.replicate_succ,run_cons,ih]
    rfl

theorem run_closing (codec : Codec) (e e' : Endpoint) :
    e'.run codec e.closing =
      { e' with session := e'.session.run (List.replicate 4 (.proceed e.session.closes.length)) } :=
  run_proceeds codec e' 4 _

theorem run_closing_of_eq (codec : Codec) {e e' : Endpoint} (h : e'.session.closes = e.session.closes) :
    e'.run codec e.closing = e' := by
  have hnone : e'.session.closes[e.session.closes.length]? = none := by
    rw [h]
    exact List.getElem?_eq_none (Nat.le_refl _)
  rw [run_closing,Session.run_proceed_of_none hnone]

theorem link_run_closing (codec : Codec) {e e' : Endpoint} {reason : String}
    (h : e'.session = e.session.step (.close reason)) :
    (e'.run codec e.closing).session.link = e.session.link.close reason := by
  rw [run_closing,h,← Session.link_close]
  rfl

structure Stays (e e' : Endpoint) : Prop where
  errands : e'.errands = e.errands
  serves : e'.serves = e.serves
  tickets : e'.session.tickets = e.session.tickets
  released : e'.session.released = e.session.released

theorem Stays.trans {e e' e'' : Endpoint} (h : e.Stays e') (h' : e'.Stays e'') : e.Stays e'' :=
  ⟨h'.errands.trans h.errands,h'.serves.trans h.serves,h'.tickets.trans h.tickets,
    h'.released.trans h.released⟩

theorem stays_closing (codec : Codec) (e e' : Endpoint) : e'.Stays (e'.run codec e.closing) := by
  obtain ⟨link,closes,delivered,hrun⟩ := e'.session.exists_run_proceed_eq e.session.closes.length 4
  rw [run_closing,hrun]
  exact ⟨rfl,rfl,rfl,rfl⟩

theorem Puts.stays {e e' : Endpoint} (h : e.Puts e') : e.Stays e' :=
  ⟨h.errands,h.serves,h.tickets,h.released⟩

end Endpoint

namespace Cluster

variable {w w' : World} {i : Nat} {codec : Codec} {e e' : Endpoint}

/-- The bytes of a link's streams, as its endpoint has them. Once the link is halted or its reading has
ended, they do not matter any more. -/
structure Stream.Mirrors (w : World) (s : Stream) (codec : Codec) (e : Endpoint) : Prop where
  codec : s.codec = codec
  apart : s.source ≠ s.sink
  inbound : e.reading = true → s.inbound = e.inbound
  writable : e.session.link.halted = false → s.writable = e.writable
  outgoing : ∃ p, w.pipes[s.sink]? = some p ∧ p.parts.reverse.flatten = e.outgoing

namespace World

theorem length_nonces (w : World) (i : Nat) : (w.nonces i).length = Gcm.nonceSize := by
  simp [nonces,Gcm.nonceSize]

def supply (w : World) : NonceSupply := ⟨w.nonces,w.length_nonces⟩

/-- An endpoint stands for a link of the world. -/
structure Mirrors (w : World) (i : Nat) (codec : Codec) (e : Endpoint) : Prop where
  link : w.links[i]? = some e.session.link
  whole : e.session.link.Whole
  stream : ∃ s, w.streams[i]? = some s ∧ s.Mirrors w codec e

theorem Mirrors.congr (h : w.Mirrors i codec e) (hlinks : w'.links = w.links)
    (hstreams : w'.streams = w.streams) (hpipes : w'.pipes = w.pipes) : w'.Mirrors i codec e := by
  obtain ⟨hlink,hwhole,s,hs,hcodec,hapart,hinbound,hwritable,hout⟩ := h
  exact ⟨by rw [hlinks,hlink],hwhole,s,by rw [hstreams,hs],hcodec,hapart,hinbound,hwritable,by rwa [hpipes]⟩

theorem Mirrors.countOn (h : w.Mirrors i codec e) (k : Nat) (events : List TrafficEvent) :
    (w.countOn k events).Mirrors i codec e := by
  unfold World.countOn
  split
  · exact h.congr rfl rfl rfl
  · exact h

theorem Mirrors.retold (h : w.Mirrors i codec e) (hlink : e'.session.link = e.session.link)
    (hreading : e'.reading = e.reading) (hinbound : e'.inbound = e.inbound)
    (hwritable : e'.writable = e.writable) (hout : e'.outgoing = e.outgoing) : w.Mirrors i codec e' := by
  obtain ⟨hi,hwhole,s,hs,hcodec,hapart,hin,hwrite,hpipe⟩ := h
  refine ⟨hlink ▸ hi,hlink ▸ hwhole,s,hs,hcodec,hapart,fun hr => ?_,fun hh => ?_,hout ▸ hpipe⟩
  · rw [hinbound]
    exact hin (hreading ▸ hr)
  · rw [hwritable]
    exact hwrite (hlink ▸ hh)

theorem Mirrors.onLink (h : w.Mirrors i codec e) {f : Connection → Connection} {s : Session}
    (hlink : s.link = f e.session.link) (hwhole : s.link.Whole)
    (hhalted : e.session.link.halted = true → s.link.halted = true) :
    (w.onLink i f).Mirrors i codec { e with session := s } := by
  obtain ⟨hi,-,st,hs,hcodec,hapart,hinbound,hwritable,hout⟩ := h
  refine ⟨by simp [World.onLink,Links.update,hi,hlink],hwhole,st,hs,hcodec,hapart,hinbound,fun hh => ?_,hout⟩
  refine hwritable ?_
  by_contra hhalt
  rw [Bool.not_eq_false] at hhalt
  exact absurd (hhalted hhalt) (Bool.eq_false_iff.mp hh)

theorem Mirrors.unmoved (h : w.Mirrors i codec e) {f : Connection → Connection} {s : Session}
    (hlink : s.link = f e.session.link) (hu : e.session.link.Unmoved (f e.session.link)) :
    (w.onLink i f).Mirrors i codec { e with session := s } :=
  h.onLink hlink (hlink ▸ hu.whole h.whole) fun hh => by rw [hlink,hu.halted,hh]

theorem Mirrors.closeLink (h : w.Mirrors i codec e) {reason : String}
    (hsession : e'.session = e.session.step (.close reason))
    (hreading : e'.reading = true → e.reading = true ∧ e'.inbound = e.inbound)
    (hout : e'.outgoing = e.outgoing) :
    (w.closeLink i reason).Mirrors i codec (e'.run codec e.closing) := by
  have hlink := Endpoint.link_run_closing codec hsession
  obtain ⟨hi,hwhole,s,hs,hcodec,hapart,hin,-,hpipe⟩ := h
  have hhalted := hwhole.halted_close reason
  refine ⟨by simp [World.closeLink,World.onLink,Links.update,hi,hlink],fun _ => hlink ▸ hhalted,s,hs,
    hcodec,hapart,fun hr => ?_,fun hh => ?_,?_⟩
  · rw [Endpoint.run_closing] at hr ⊢
    obtain ⟨hread,hinbound⟩ := hreading hr
    exact (hin hread).trans hinbound.symm
  · simp [hlink,hhalted] at hh
  · rw [Endpoint.run_closing]
    exact hout ▸ hpipe

/-- A link that has just been made, over two pipes of which the one it writes into is still empty, is an
endpoint that has just been established. -/
theorem mirrors_addLink {stream : Stream} (hlen : w.streams.length = w.links.length)
    (hinbound : stream.inbound = {}) (hwritable : stream.writable = true)
    (hapart : stream.source ≠ stream.sink) (hempty : ∃ p, w.pipes[stream.sink]? = some p ∧ p.parts = [])
    (name : String) (role : Role) (peerAddr : String) :
    (w.addLink name role peerAddr stream).1.Mirrors w.links.length stream.codec
      (.establish name role peerAddr (firstCounter w.links.length)) := by
  obtain ⟨p,hp,hparts⟩ := hempty
  refine ⟨by simp [addLink,start,count,Endpoint.establish,Session.establish],?_,stream,?_,rfl,hapart,
    fun _ => hinbound,fun _ => hwritable,p,hp,by simp [hparts,Endpoint.establish]⟩
  · simp [Connection.Whole,Endpoint.establish,Session.establish,Connection.establish]
  · simp [addLink,start,count,← hlen]

/-! ### Writing -/

theorem Mirrors.pour (h : w.Mirrors i codec e) {s : Stream} (hs : w.streams[i]? = some s)
    (bytes : List UInt8) (chunks : List Chunk) :
    (w.pour s.sink bytes).Mirrors i codec (e.extend bytes chunks none) := by
  obtain ⟨hi,hwhole,s',hs',hcodec,hapart,hinbound,hwritable,p,hp,hparts⟩ := h
  obtain rfl : s' = s := Option.some.inj (hs'.symm.trans hs)
  unfold World.pour
  by_cases hempty : bytes.isEmpty = true
  · rw [if_pos hempty]
    exact ⟨hi,hwhole,s',hs,hcodec,hapart,hinbound,hwritable,p,hp,
      by simp [Endpoint.extend,hparts,List.isEmpty_iff.mp hempty]⟩
  · rw [if_neg hempty]
    exact ⟨hi,hwhole,s',hs,hcodec,hapart,hinbound,hwritable,{ p with parts := bytes :: p.parts },
      by simp [World.onPipe,hp],by simp [Endpoint.extend,hparts]⟩

theorem Mirrors.allow (h : w.Mirrors i codec e) (allowance : Option Nat) :
    (w.onStream i fun s => { s with allowance }).Mirrors i codec e := by
  obtain ⟨hi,hwhole,s,hs,hcodec,hapart,hinbound,hwritable,hout⟩ := h
  exact ⟨hi,hwhole,{ s with allowance },by simp [World.onStream,hs],hcodec,hapart,hinbound,hwritable,hout⟩

theorem Mirrors.shut_eq (h : w.Mirrors i codec e) {s : Stream} (hs : w.streams[i]? = some s) :
    (e.session.link.halted || !s.writable) = (e.session.link.halted || !e.writable) := by
  obtain ⟨-,-,s',hs',hmirrors⟩ := h
  obtain rfl : s' = s := Option.some.inj (hs'.symm.trans hs)
  cases hhalted : e.session.link.halted with
  | true => rfl
  | false => rw [hmirrors.writable hhalted]

/-- A write in the world is a write of the endpoint, whole or torn, with the closing that a torn one
brings about. -/
theorem Mirrors.writeBytes (h : w.Mirrors i codec e) (bytes : List UInt8) (frames : Nat)
    (chunks : List Chunk) : ∃ tear, (w.writeBytes i bytes frames).2 = (e.put bytes chunks tear).2 ∧
      (w.writeBytes i bytes frames).1.Mirrors i codec ((e.put bytes chunks tear).1.run codec e.closing) := by
  obtain ⟨s,hs,-⟩ := h.stream
  have hopen : (e.extend bytes chunks none).run codec e.closing = e.extend bytes chunks none :=
    Endpoint.run_closing_of_eq codec rfl
  unfold World.writeBytes Endpoint.put
  rw [h.link,hs]
  simp only [h.shut_eq hs]
  by_cases hshut : (e.session.link.halted || !e.writable) = true
  · refine ⟨none,?_⟩
    rw [if_pos hshut,if_pos hshut,Endpoint.run_closing_of_eq codec rfl]
    exact ⟨rfl,h⟩
  · simp only [if_neg hshut]
    cases hallowance : s.allowance with
    | none =>
      refine ⟨none,rfl,?_⟩
      rw [hopen]
      exact (h.pour hs bytes chunks).congr rfl rfl rfl
    | some most =>
      have hpoured := (h.pour hs (bytes.take most) chunks).allow (some (most - bytes.length))
      by_cases hle : bytes.length ≤ most
      · refine ⟨none,?_⟩
        simp only [if_pos hle,hopen]
        rw [List.take_of_length_le hle] at hpoured ⊢
        exact ⟨trivial,hpoured.congr rfl rfl rfl⟩
      · refine ⟨some (most,.described "write limit"),?_⟩
        simp only [if_neg hle]
        exact ⟨rfl,(hpoured.countOn i [.error]).closeLink rfl (fun hr => ⟨hr,rfl⟩) rfl⟩

theorem writeMessage_eq {s : Stream} (hs : w.streams[i]? = some s) (m : Message) : w.writeMessage i m =
    match (s.codec.emitMessage w.nonces m).fault with
    | some error => (w,.error error)
    | none => w.writeBytes i (s.codec.emitMessage w.nonces m).bytes (s.codec.chunksOf w.nonces m).length := by
  rw [World.writeMessage,hs]
  simp only [Codec.encode]
  cases hf : (s.codec.emitMessage w.nonces m).fault with
  | some error => rfl
  | none =>
    obtain ⟨total,ht,-⟩ := (Codec.emitMessage_fault_iff ..).mp hf
    simp only [ht,Codec.chunksOf,Codec.length_chunks]

theorem Mirrors.writeChunk_eq (h : w.Mirrors i codec e) (number : Nat) (place : ChunkPlace)
    (piece : List UInt8) : w.writeChunk i number place piece =
      match codec.encodeChunk (w.nonces number) place piece with
      | .error error => (w,.error error)
      | .ok bytes => w.writeBytes i bytes 1 := by
  obtain ⟨s,hs,hmirrors⟩ := h.stream
  cases hchunk : codec.encodeChunk (w.nonces number) place piece <;>
    simp only [World.writeChunk,hs,hmirrors.codec,hchunk]

theorem Mirrors.writeMessage (h : w.Mirrors i codec e) (m : Message) :
    ∃ tear, (w.writeMessage i m).2 = (e.writeMessage codec w.supply m tear).2 ∧
      (w.writeMessage i m).1.Mirrors i codec
        ((e.writeMessage codec w.supply m tear).1.run codec e.closing) := by
  obtain ⟨s,hs,hmirrors⟩ := h.stream
  rw [writeMessage_eq hs,hmirrors.codec]
  simp only [Endpoint.writeMessage,supply]
  cases hf : (codec.emitMessage w.nonces m).fault with
  | some error =>
    refine ⟨none,rfl,?_⟩
    rw [Endpoint.run_closing_of_eq codec rfl]
    exact h
  | none => exact h.writeBytes ..

end World
end Cluster
end Tether
