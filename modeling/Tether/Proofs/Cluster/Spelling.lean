import Tether.Proofs.Cluster.Following

/-! What a stream of bytes says, apart from any reader: frames up to the first thing that is wrong, and the
messages that they make up. A reader finds just that, and its link counts just those frames. -/
namespace Tether

/-- The frames that a stream has taken in, the messages that they complete, and what is wrong at last, if
anything is: a frame that cannot be decoded, or one that does not fit those in front of it. -/
inductive Codec.Says (codec : Codec) (stream : List UInt8) :
    List Frame → List Message → Option ProtocolFault → Prop
  | whole {d : Decoder} {r : Reassembler} {fs : List Frame} {ms : List Message} :
    Decoder.drain codec ⟨none,stream⟩ = (d,fs,none) →
    Reassembler.run codec.limits {} fs = some (r,ms) → Says codec stream fs ms none
  | malformed {d : Decoder} {r : Reassembler} {fs : List Frame} {ms : List Message}
      {fault : ProtocolFault} : Decoder.drain codec ⟨none,stream⟩ = (d,fs,some fault) →
    Reassembler.run codec.limits {} fs = some (r,ms) → Says codec stream fs ms (some fault)
  | refused {d : Decoder} {r : Reassembler} {before after : List Frame} {f : Frame} {ms : List Message}
      {later : Option ProtocolFault} {fault : ProtocolFault} :
    Decoder.drain codec ⟨none,stream⟩ = (d,before ++ f :: after,later) →
    Reassembler.run codec.limits {} before = some (r,ms) →
    (r.push codec.limits f).2 = .error fault → Says codec stream (before ++ [f]) ms (some fault)

namespace Arrival

def size? : Arrival → Option Nat
  | .frame size => some size
  | _ => none

def sizes (arrivals : List Arrival) : List Nat := arrivals.filterMap size?

@[simp] theorem sizes_append (first rest : List Arrival) :
    sizes (first ++ rest) = sizes first ++ sizes rest := List.filterMap_append

end Arrival

namespace Inbound

/-- Frames are all taken in, or one of them is refused and those behind it are not looked at. -/
inductive Absorbs (limits : Limits) (r : Reassembler) (fs : List Frame) :
    Reassembler × List Arrival × Bool → Prop
  | all {r' : Reassembler} {ms : List Message} {found : List Arrival} :
    Reassembler.run limits r fs = some (r',ms) → Arrival.messages found = ms →
    Arrival.faults found = [] → Arrival.sizes found = fs.map frameSize →
    Absorbs limits r fs (r',found,true)
  | refused {r₁ r' : Reassembler} {before after : List Frame} {f : Frame} {ms : List Message}
      {fault : ProtocolFault} {found : List Arrival} : fs = before ++ f :: after →
    Reassembler.run limits r before = some (r₁,ms) → (r₁.push limits f).2 = .error fault →
    Arrival.messages found = ms → Arrival.faults found = [.protocol fault] →
    Arrival.sizes found = (before ++ [f]).map frameSize → Absorbs limits r fs (r',found,false)

/-- A frame that is taken in comes in front of the rest. -/
theorem Absorbs.cons {limits : Limits} {r r₁ : Reassembler} {f : Frame} {fs : List Frame}
    {out : Option Message} (hp : r.push limits f = (r₁,.ok out)) {result : Reassembler × List Arrival × Bool}
    (h : Absorbs limits r₁ fs result) :
    Absorbs limits r (f :: fs)
      (result.1,.frame (frameSize f) :: (out.map Arrival.message).toList ++ result.2.1,result.2.2) := by
  have hmessages : ∀ found, Arrival.messages
      (.frame (frameSize f) :: (out.map Arrival.message).toList ++ found) =
        out.toList ++ Arrival.messages found := by
    intro found
    cases out <;> rfl
  have hfaults : ∀ found, Arrival.faults
      (.frame (frameSize f) :: (out.map Arrival.message).toList ++ found) = Arrival.faults found := by
    intro found
    cases out <;> rfl
  have hsizes : ∀ found, Arrival.sizes
      (.frame (frameSize f) :: (out.map Arrival.message).toList ++ found) =
        frameSize f :: Arrival.sizes found := by
    intro found
    cases out <;> rfl
  have hrun : ∀ {gs r₂ ms}, Reassembler.run limits r₁ gs = some (r₂,ms) →
      Reassembler.run limits r (f :: gs) = some (r₂,out.toList ++ ms) :=
    fun hrest => (Reassembler.run_cons_eq_some_iff ..).mpr ⟨_,_,_,hp,hrest,rfl⟩
  cases h with
  | all hrest hms hnone hall =>
    exact .all (hrun hrest) (by rw [hmessages,hms]) (by rw [hfaults,hnone]) (by rw [hsizes,hall]; rfl)
  | @refused _ _ before after g _ _ _ hfs hrest hpush hms hfault hall =>
    exact .refused (show f :: fs = (f :: before) ++ g :: after by rw [hfs]; rfl) (hrun hrest) hpush
      (by rw [hmessages,hms]) (by rw [hfaults,hfault]) (by rw [hsizes,hall]; rfl)

theorem absorbs (limits : Limits) (r : Reassembler) (fs : List Frame) :
    Absorbs limits r fs (absorb limits r fs) := by
  induction fs generalizing r with
  | nil => exact .all rfl rfl rfl rfl
  | cons f fs ih =>
    rw [absorb]
    rcases hp : r.push limits f with ⟨r₁,fault | _ | m⟩
    · exact .refused (show f :: fs = [] ++ f :: fs from rfl) rfl (by rw [hp]) rfl rfl rfl
    · exact .cons hp (ih r₁)
    · exact .cons hp (ih r₁)

end Inbound

/-- Reading a stream at once finds what the stream says. -/
theorem Codec.exists_says (codec : Codec) (stream : List UInt8) :
    ∃ fs ms fault, codec.Says stream fs ms fault ∧
      Arrival.messages (({} : Inbound).read codec stream).2 = ms ∧
      Arrival.faults (({} : Inbound).read codec stream).2 = (fault.map LinkError.protocol).toList ∧
      Arrival.sizes (({} : Inbound).read codec stream).2 = fs.map Inbound.frameSize := by
  have hread := congrArg Prod.snd (Inbound.read_eq codec {} stream)
  rcases hdrain : Decoder.drain codec ⟨none,stream⟩ with ⟨d,fs,fault⟩
  have hdrain' : Decoder.drain codec (({} : Inbound).decoder.feed stream) = (d,fs,fault) := hdrain
  simp only [hdrain'] at hread
  rw [hread]
  have habsorbs := Inbound.absorbs codec.limits {} fs
  generalize Inbound.absorb codec.limits {} fs = taken at habsorbs
  cases habsorbs with
  | @all r' ms found hrun hms hnone hall =>
    cases fault with
    | none =>
      simp only [Inbound.faultOf,if_true,Option.map_none,Option.toList_none,List.append_nil]
      exact ⟨fs,ms,none,.whole hdrain hrun,hms,hnone,hall⟩
    | some fault =>
      refine ⟨fs,ms,some fault,.malformed hdrain hrun,?_,?_,?_⟩
      · rw [Arrival.messages_append,hms]
        exact List.append_nil ms
      · rw [Arrival.faults_append,hnone]
        rfl
      · rw [Arrival.sizes_append,hall]
        exact List.append_nil _
  | @refused r₁ _ before after f ms refusal found hfs hrun hpush hms hone hall =>
    subst hfs
    simp only [Inbound.faultOf,Bool.false_eq_true,if_false,List.append_nil]
    exact ⟨before ++ [f],ms,some refusal,.refused hdrain hrun hpush,hms,hone,hall⟩

/-! ### What the link counts -/

/-- What reading has added to the counters: frames with their sizes, and errors. -/
structure Traffic.Reads (t t' : Traffic) (sizes : List Nat) (errors : Nat) : Prop where
  frames : t'.framesReceived = t.framesReceived + .ofNat sizes.length
  bytes : t'.bytesReceived = t.bytesReceived + .ofNat sizes.sum
  errors : t'.errors = t.errors + .ofNat errors

namespace Traffic

theorem Reads.trans {t t' t'' : Traffic} {sizes sizes' : List Nat} {n n' : Nat}
    (h : t.Reads t' sizes n) (h' : t'.Reads t'' sizes' n') :
    t.Reads t'' (sizes ++ sizes') (n + n') where
  frames := by rw [h'.frames,h.frames,List.length_append,UInt64.ofNat_add,UInt64.add_assoc]
  bytes := by rw [h'.bytes,h.bytes,List.sum_append,UInt64.ofNat_add,UInt64.add_assoc]
  errors := by rw [h'.errors,h.errors,UInt64.ofNat_add,UInt64.add_assoc]

theorem Reads.refl (t : Traffic) : t.Reads t [] 0 :=
  ⟨(UInt64.add_zero _).symm,(UInt64.add_zero _).symm,(UInt64.add_zero _).symm⟩

theorem reads_countAll {t : Traffic} {events : List TrafficEvent}
    (h : ∀ ev ∈ events, ev = .requestReceived ∨ ev = .applicationError ∨ ev = .responseReceived) :
    t.Reads (t.countAll events) [] 0 := by
  induction events generalizing t with
  | nil => exact .refl t
  | cons ev events ih =>
    simp only [List.mem_cons,forall_eq_or_imp] at h
    have hone : t.Reads (t.count ev) [] 0 := by
      rcases h.1 with rfl | rfl | rfl <;>
        exact ⟨(UInt64.add_zero _).symm,(UInt64.add_zero _).symm,(UInt64.add_zero _).symm⟩
    exact hone.trans (ih h.2)

end Traffic

namespace Cluster

def World.traffic? (w : World) (i : Nat) : Option Traffic :=
  (w.streams[i]?).bind fun s => w.traffics[s.traffic]?

variable {w : World} {r : Reading} {t : Traffic}

theorem World.traffic?_countOn (w : World) (i : Nat) (events : List TrafficEvent) :
    (w.countOn i events).traffic? i = (w.traffic? i).map (·.countAll events) := by
  unfold World.countOn
  cases hs : w.streams[i]? with
  | none => simp [World.traffic?,hs]
  | some s => simp [World.traffic?,hs,World.count]

/-- What one arrival adds to the counters. -/
theorem Reading.exists_arrive (ht : w.traffic? r.link = some t) (a : Arrival) :
    ∃ w' r' t', Reading.arrive w r a = (w',r',a.fault?.map (·.message)) ∧ r'.link = r.link ∧
      w'.traffic? r.link = some t' ∧ t.Reads t' a.size?.toList a.fault?.toList.length := by
  have hcount : ∀ {w : World} (events : List TrafficEvent), w.traffic? r.link = some t →
      (w.countOn r.link events).traffic? r.link = some (t.countAll events) := by
    intro w events ht
    rw [World.traffic?_countOn,ht,Option.map_some]
  cases a with
  | frame size =>
    refine ⟨_,r,_,rfl,rfl,hcount [.framesReceived 1 size] ht,rfl,?_,(UInt64.add_zero _).symm⟩
    simp [Traffic.countAll,Traffic.count,Arrival.size?]
  | fault error =>
    exact ⟨_,r,_,rfl,rfl,hcount [.error] ht,(UInt64.add_zero _).symm,(UInt64.add_zero _).symm,rfl⟩
  | message m =>
    simp only [Reading.arrive]
    by_cases hm : m.response = true
    · simp only [hm,if_true]
      cases hlink : w.links[r.link]? with
      | none => exact ⟨w,r,t,rfl,rfl,ht,.refl t⟩
      | some c =>
        refine ⟨_,r,_,rfl,rfl,hcount (Connection.responseEvents m (c.processResponse m).2) ?_,?_⟩
        · exact ht
        · refine Traffic.reads_countAll fun ev hev => ?_
          unfold Connection.responseEvents at hev
          rcases List.mem_append.mp hev with hev | hev <;> split at hev <;> simp_all
    · simp only [hm]
      exact ⟨_,_,_,rfl,rfl,hcount [.requestReceived] ht,Traffic.reads_countAll (by simp)⟩

theorem Reading.exists_arriveAll {arrivals : List Arrival} (ht : w.traffic? r.link = some t)
    (hsound : Arrival.faults arrivals = []) :
    ∃ w' r' t', (∀ rest, Reading.arriveAll w r (arrivals ++ rest) = Reading.arriveAll w' r' rest) ∧
      r'.link = r.link ∧ w'.traffic? r.link = some t' ∧ t.Reads t' (Arrival.sizes arrivals) 0 := by
  induction arrivals generalizing w r t with
  | nil => exact ⟨w,r,t,fun _ => rfl,rfl,ht,.refl t⟩
  | cons a arrivals ih =>
    obtain ⟨hnone,hrest⟩ : a.fault? = none ∧ Arrival.faults arrivals = [] := by
      cases a with
      | fault error => simp [Arrival.faults,Arrival.fault?] at hsound
      | _ => exact ⟨rfl,hsound⟩
    obtain ⟨w₁,r₁,t₁,harrive,hlink,ht₁,hreads⟩ := Reading.exists_arrive ht a
    rw [← hlink] at ht₁
    obtain ⟨w',r',t',hall,hlink',ht',hreads'⟩ := ih ht₁ hrest
    refine ⟨w',r',t',fun rest => ?_,hlink'.trans hlink,hlink ▸ ht',?_⟩
    · rw [← hall]
      simp [Reading.arriveAll,harrive,hnone]
    · have hboth := hreads.trans hreads'
      rw [hnone] at hboth
      have hsizes : Arrival.sizes (a :: arrivals) = a.size?.toList ++ Arrival.sizes arrivals := by
        cases a <;> rfl
      rwa [hsizes]

theorem Reading.exists_traffic {arrivals : List Arrival} {fault : Option ProtocolFault}
    (ht : w.traffic? r.link = some t) {found : List Arrival} (hsound : Arrival.faults found = [])
    (harrivals : arrivals = found ++ (fault.map fun fault => .fault (.protocol fault)).toList) :
    ∃ t', (Reading.arriveAll w r arrivals).1.traffic? r.link = some t' ∧
      t.Reads t' (Arrival.sizes arrivals) fault.toList.length := by
  obtain ⟨w₁,r₁,t₁,hall,hlink,ht₁,hreads⟩ := Reading.exists_arriveAll ht hsound
  rw [harrivals,hall]
  cases fault with
  | none =>
    refine ⟨t₁,ht₁,?_⟩
    rw [Option.map_none,Option.toList_none,List.append_nil]
    exact hreads
  | some fault =>
    rw [← hlink] at ht₁
    obtain ⟨w₂,r₂,t₂,harrive,-,ht₂,hreads'⟩ := Reading.exists_arrive ht₁ (.fault (.protocol fault))
    have hboth := hreads.trans hreads'
    rw [hlink] at ht₂
    refine ⟨t₂,?_,?_⟩
    · simpa [Reading.arriveAll,harrive,Arrival.fault?] using ht₂
    · rw [Arrival.sizes_append]
      exact hboth

end Cluster
end Tether
