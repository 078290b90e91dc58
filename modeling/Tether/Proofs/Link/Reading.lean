import Tether.Link.Inbound
import Tether.Proofs.Wire.Sending

/-! Reading a stream in pieces. Whatever the pieces are, reading finds the messages that the stream is
made of: the messages of an honest sender arrive in their order, each once and unchanged, and nothing
is left in the reader. -/
namespace Tether

namespace Arrival

def message? : Arrival → Option Message
  | .message m => some m
  | _ => none

def fault? : Arrival → Option LinkError
  | .fault e => some e
  | _ => none

def messages (arrivals : List Arrival) : List Message := arrivals.filterMap message?

def faults (arrivals : List Arrival) : List LinkError := arrivals.filterMap fault?

@[simp] theorem messages_frame (size : Nat) (rest : List Arrival) :
    messages (.frame size :: rest) = messages rest := rfl

@[simp] theorem messages_message (m : Message) (rest : List Arrival) :
    messages (.message m :: rest) = m :: messages rest := rfl

@[simp] theorem messages_append (first rest : List Arrival) :
    messages (first ++ rest) = messages first ++ messages rest := List.filterMap_append

@[simp] theorem faults_frame (size : Nat) (rest : List Arrival) :
    faults (.frame size :: rest) = faults rest := rfl

@[simp] theorem faults_message (m : Message) (rest : List Arrival) :
    faults (.message m :: rest) = faults rest := rfl

@[simp] theorem faults_append (first rest : List Arrival) :
    faults (first ++ rest) = faults first ++ faults rest := List.filterMap_append

end Arrival

namespace Inbound

def readAll (codec : Codec) (i : Inbound) : List (List UInt8) → Inbound × List Arrival
  | [] => (i,[])
  | piece :: rest =>
    let (i,arrivals) := i.read codec piece
    let (i,later) := readAll codec i rest
    (i,arrivals ++ later)

/-- Frames that are all taken in give their messages and no fault. -/
theorem absorbOnto_of_run {limits : Limits} {r r' : Reassembler} {fs : List Frame}
    {ms : List Message} (h : Reassembler.run limits r fs = some (r',ms)) (found : List Arrival) :
    ∃ arrivals : List Arrival, absorbOnto limits r found fs = (r',arrivals.reverse ++ found,true) ∧
      Arrival.messages arrivals = ms ∧ Arrival.faults arrivals = [] := by
  induction fs generalizing r ms found with
  | nil =>
    simp only [Reassembler.run,Option.some.injEq,Prod.mk.injEq] at h
    obtain ⟨rfl,rfl⟩ := h
    exact ⟨[],rfl,rfl,rfl⟩
  | cons f fs ih =>
    obtain ⟨r₁,out,ms',hpush,hrun,rfl⟩ := (Reassembler.run_cons_eq_some_iff limits r r' f fs ms).mp h
    cases out with
    | none =>
      obtain ⟨arrivals,habsorb,hms,hfaults⟩ := ih hrun (.frame (frameSize f) :: found)
      refine ⟨.frame (frameSize f) :: arrivals,?_,?_,?_⟩
      · simp [absorbOnto,hpush,habsorb]
      · simpa using hms
      · simpa using hfaults
    | some m =>
      obtain ⟨arrivals,habsorb,hms,hfaults⟩ := ih hrun (.message m :: .frame (frameSize f) :: found)
      refine ⟨.frame (frameSize f) :: .message m :: arrivals,?_,?_,?_⟩
      · simp [absorbOnto,hpush,habsorb]
      · simpa using hms
      · simpa using hfaults

theorem read_of_run {codec : Codec} {i : Inbound} {piece : List UInt8} {fs : List Frame}
    {r' : Reassembler} {ms : List Message} (hfs : (Decoder.drain codec (i.decoder.feed piece)).2.1 = fs)
    (hfault : (Decoder.drain codec (i.decoder.feed piece)).2.2 = none)
    (hrun : Reassembler.run codec.limits i.reassembler fs = some (r',ms)) :
    (i.read codec piece).1 = ⟨(Decoder.drain codec (i.decoder.feed piece)).1,r'⟩ ∧
      Arrival.messages (i.read codec piece).2 = ms ∧
        Arrival.faults (i.read codec piece).2 = [] := by
  obtain ⟨arrivals,habsorb,hms,hfaults⟩ := absorbOnto_of_run hrun []
  simp only [read,hfs,hfault,habsorb,List.append_nil,List.reverse_reverse]
  exact ⟨trivial,hms,hfaults⟩

/-- What a stream is drained into does not depend on the pieces in which it comes. -/
theorem readAll_of_drains {codec : Codec} {i : Inbound} {cuts : List (List UInt8)} {fs : List Frame}
    {last : List UInt8} {r' : Reassembler} {ms : List Message} (hv : i.decoder.Valid codec)
    (hidle : Decoder.Drains codec i.decoder.pending [] none i.decoder.pending)
    (hd : Decoder.Drains codec (i.decoder.pending ++ cuts.flatten) fs none last)
    (hrun : Reassembler.run codec.limits i.reassembler fs = some (r',ms)) :
    (i.readAll codec cuts).1.decoder.pending = last ∧ (i.readAll codec cuts).1.reassembler = r' ∧
      Arrival.messages (i.readAll codec cuts).2 = ms ∧
        Arrival.faults (i.readAll codec cuts).2 = [] := by
  induction cuts generalizing i fs ms with
  | nil =>
    rw [List.flatten_nil,List.append_nil] at hd
    obtain ⟨rfl,-,rfl⟩ := hd.unique hidle
    simp only [Reassembler.run,Option.some.injEq,Prod.mk.injEq] at hrun
    obtain ⟨rfl,rfl⟩ := hrun
    exact ⟨rfl,rfl,rfl,rfl⟩
  | cons piece cuts ih =>
    obtain ⟨hpiece,hvalid⟩ := Decoder.drain_drains (i.decoder.feed piece) (hv.feed piece)
    rw [Decoder.pending_feed] at hpiece
    rw [List.flatten_cons,← List.append_assoc] at hd
    obtain ⟨hfault,fs',rfl,hrest⟩ := hd.split hpiece
    obtain ⟨r₁,ms₁,ms₂,hrun₁,hrun₂,rfl⟩ :=
      (Reassembler.run_append_eq_some_iff codec.limits i.reassembler r' _ fs' ms).mp hrun
    obtain ⟨hread,hms,hfaults⟩ := read_of_run rfl hfault hrun₁
    rw [hfault] at hpiece
    obtain ⟨hp,hr,hms',hfaults'⟩ := @ih (i.read codec piece).1 fs' ms₂ (by rw [hread]; exact hvalid)
      (by rw [hread]; exact hpiece.idle) (by rw [hread]; exact hrest) (by rw [hread]; exact hrun₂)
    exact ⟨hp,hr,by simp [readAll,hms,hms'],by simp [readAll,hfaults,hfaults']⟩

/-- Messages that a sender appends to one buffer arrive whatever pieces the buffer is read in: without
a fault, in their order, unchanged, and with nothing left over. Of the cipher it is only used that
opening undoes sealing and that sealing adds a nonce and a tag. -/
theorem readAll_appendAll (codec : Codec) (hs : codec.Sound)
    (hchunk : 1 ≤ codec.limits.chunkSize.toNat)
    (hroom : codec.limits.chunkSize.toNat + 28 ≤ codec.limits.framePayload.toNat)
    (hword : codec.limits.framePayload.toNat < 2^32)
    (hpartial : 1 ≤ codec.limits.partialMessages.toNat) (batch : List (NonceSupply × Message))
    (hcount : ∀ b ∈ batch, ∃ total, codec.limits.chunkCount b.2.payload.length = .ok total)
    (hsize : ∀ b ∈ batch, b.2.payload.length ≤ codec.limits.messageSize.toNat)
    (cuts : List (List UInt8)) (hcuts : cuts.flatten = (codec.appendAll batch []).1) :
    (codec.appendAll batch []).2 = none ∧
      Arrival.faults (readAll codec {} cuts).2 = [] ∧
      Arrival.messages (readAll codec {} cuts).2 = batch.map (·.2) ∧
      (readAll codec {} cuts).1.decoder = {} ∧
      (readAll codec {} cuts).1.reassembler.inProgress = 0 := by
  have ha : codec.limits.Ample := ⟨hchunk,hroom,hword⟩
  have hbytes := Codec.appendAll_eq hs ha batch [] hcount
  let cs := batch.flatMap fun b => codec.chunksOf b.1.1 b.2
  have hproper : ∀ c ∈ cs, c.Proper codec := by
    intro c hc
    obtain ⟨b,hb,hmem⟩ := List.mem_flatMap.mp hc
    obtain ⟨total,ht⟩ := hcount b hb
    simp only [Codec.chunksOf,ht] at hmem
    exact Codec.proper_of_mem_chunks hs ha b.1 b.2 total c hmem
  have hd := Decoder.drains_wires hs cs hproper
  rw [hbytes,List.nil_append] at hcuts
  have hpending : (({} : Inbound).decoder.pending ++ cuts.flatten) =
      (cs.map (Chunk.wire codec)).flatten := hcuts
  rw [← hpending] at hd
  have hrun := Codec.run_batch ha hpartial batch hcount hsize
  obtain ⟨hp,hr,hms,hfaults⟩ := readAll_of_drains (Decoder.valid_none codec []) (.more rfl) hd hrun
  refine ⟨by rw [hbytes],hfaults,hms,Decoder.eq_empty_of_pending hp,?_⟩
  rw [hr]
  rfl

/-- A request of three chunks and an empty reply, sealed and read byte by byte behind an empty piece. -/
theorem readAll_appendAll_bytes :
    let key : PayloadKey := ⟨List.replicate 32 7⟩
    let codec : Codec := ⟨{ chunkSize := 2, framePayload := 30, partialMessages := 1 },some (.ofKey key)⟩
    let supply : NonceSupply := ⟨fun _ => List.replicate 12 1,fun _ => rfl⟩
    let batch : List (NonceSupply × Message) :=
      [(supply,⟨5,.hello,false,[1,2,3,4,5]⟩),(supply,⟨5,.ok,true,[]⟩)]
    let cuts : List (List UInt8) := [] :: (codec.appendAll batch []).1.map ([·])
    Arrival.messages (readAll codec {} cuts).2 =
        [⟨5,.hello,false,[1,2,3,4,5]⟩,⟨5,.ok,true,[]⟩] ∧
      Arrival.faults (readAll codec {} cuts).2 = [] ∧ (readAll codec {} cuts).1.decoder = {} := by
  intro key codec supply batch cuts
  have hs : codec.Sound := fun cipher h => Option.some.inj h ▸ Cipher.ofKey_sound key
  have h := readAll_appendAll codec hs (by decide) (by decide) (by decide) (by decide) batch
    (by
      intro b hb
      simp only [batch,List.mem_cons,List.not_mem_nil,or_false] at hb
      rcases hb with rfl | rfl
      · exact ⟨3,(Limits.chunkCount_eq_ok_iff ..).mpr ⟨by decide,by decide,by decide⟩⟩
      · exact ⟨1,(Limits.chunkCount_eq_ok_iff ..).mpr ⟨by decide,by decide,by decide⟩⟩)
    (by
      intro b hb
      simp only [batch,List.mem_cons,List.not_mem_nil,or_false] at hb
      rcases hb with rfl | rfl <;> decide)
    cuts (by rw [List.flatten_cons,List.nil_append,← List.flatMap_def,List.flatMap_singleton'])
  exact ⟨h.2.2.1,h.2.1,h.2.2.2.1⟩

end Inbound
end Tether
