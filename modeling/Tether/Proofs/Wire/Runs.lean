import Tether.Proofs.Wire.Interleaving

/-! What frames come to, whoever sends them. Under each key the frames that are taken in fall into runs, one
message told from its first frame to its last, and all but the latest run have come to their end. The run
that has not tells everything of the next frame: whether it is taken in, what it is refused for, and which
message it ends. -/
namespace Tether

namespace Reassembler

/-- Frames one after the other, the first one and those that came after it. -/
structure Run where
  first : Frame
  later : List Frame
deriving DecidableEq, Repr

/-- The frame stands at a place of the message that another one begins, and tells the same of it. -/
structure Placed (first : Frame) (index : Nat) (f : Frame) : Prop where
  index : f.header.index.toNat = index
  key : f.key = first.key
  tag : f.header.tag = first.header.tag
  total : f.header.total = first.header.total
  messageLength : f.header.messageLength = first.header.messageLength

namespace Run

def frames (run : Run) : List Frame := run.first :: run.later

def payload (run : Run) : List UInt8 := run.frames.flatMap Frame.payload

def message (run : Run) : Message :=
  ⟨run.first.header.counter,run.first.header.tag,run.first.header.isResponse,run.payload⟩

def Ended (run : Run) : Prop := run.frames.length = run.first.header.total.toNat

instance (run : Run) : Decidable run.Ended := inferInstanceAs (Decidable (_ = _))

/-- The frames stand at the first places of one message, in their order, and their bytes have room in it. If
no place is left, no bytes are missing either. -/
structure Formed (limits : Limits) (run : Run) : Prop where
  placed : ∀ i f, run.frames[i]? = some f → Placed run.first i f
  count : run.frames.length ≤ run.first.header.total.toNat
  size : run.payload.length ≤ run.first.header.messageLength.toNat
  final : run.Ended → run.payload.length = run.first.header.messageLength.toNat
  limit : run.first.header.messageLength.toNat ≤ limits.messageSize.toNat

/-- What is held of a run that has not come to its end. -/
def held (run : Run) : Partial :=
  { tag := run.first.header.tag
    next := UInt16.ofNat run.frames.length
    total := run.first.header.total
    messageLength := run.first.header.messageLength
    pieces := (run.frames.map Frame.payload).reverse
    size := run.payload.length }

def next : Option Run → Frame → Run
  | none,f => ⟨f,[]⟩
  | some run,f => ⟨run.first,run.later ++ [f]⟩

variable {limits : Limits} {run : Run} {rest : Option Run} {f : Frame}

@[simp] theorem first_next_some (run : Run) (f : Frame) : (next (some run) f).first = run.first := rfl

@[simp] theorem frames_next_some (run : Run) (f : Frame) :
    (next (some run) f).frames = run.frames ++ [f] := rfl

@[simp] theorem frames_next_none (f : Frame) : (next none f).frames = [f] := rfl

theorem frames_next (rest : Option Run) (f : Frame) :
    (next rest f).frames = rest.toList.flatMap frames ++ [f] := by
  cases rest with
  | none => rfl
  | some run => simp

@[simp] theorem payload_next_some (run : Run) (f : Frame) :
    (next (some run) f).payload = run.payload ++ f.payload := by
  simp [payload]

@[simp] theorem payload_next_none (f : Frame) : (next none f).payload = f.payload := by
  simp [payload]

theorem ended_next_none_iff : (next none f).Ended ↔ f.header.total = 1 := by
  rw [← UInt16.toNat_inj]
  exact eq_comm

theorem ended_next_some_iff :
    (next (some run) f).Ended ↔ run.frames.length + 1 = run.first.header.total.toNat := by
  rw [Ended,frames_next_some,List.length_append]
  rfl

theorem bytes_held (run : Run) : run.held.bytes = run.payload := by
  simp [held,Partial.bytes,payload,List.flatMap_def]

theorem one_le_length (run : Run) : 1 ≤ run.frames.length := by
  simp [frames]

theorem Formed.lt (h : run.Formed limits) (hopen : ¬ run.Ended) :
    run.frames.length < run.first.header.total.toNat := Nat.lt_of_le_of_ne h.count hopen

theorem Formed.toNat_next (h : run.Formed limits) (hopen : ¬ run.Ended) :
    run.held.next.toNat = run.frames.length := by
  have hlt := h.lt hopen
  have hword := run.first.header.total.toNat_lt
  exact UInt16.toNat_ofNat_of_lt (by simp only [UInt16.size]; omega)

/-! ### The next frame of a run -/

/-- The run, if there is one, is one that the frame might go on with. -/
def Open (limits : Limits) (f : Frame) (rest : Option Run) : Prop :=
  ∀ run ∈ rest, run.Formed limits ∧ ¬ run.Ended ∧ f.key = run.first.key

theorem formed_next_some_iff (h : run.Formed limits) (hopen : ¬ run.Ended) :
    (next (some run) f).Formed limits ↔ Placed run.first run.frames.length f ∧
      (run.payload ++ f.payload).length ≤ run.first.header.messageLength.toNat ∧
      ((next (some run) f).Ended →
        (run.payload ++ f.payload).length = run.first.header.messageLength.toNat) := by
  rw [← payload_next_some]
  constructor
  · exact fun hnext => ⟨hnext.placed _ f (by simp),hnext.size,hnext.final⟩
  · rintro ⟨hplaced,hsize,hfinal⟩
    refine ⟨fun i g hg => ?_,?_,hsize,hfinal,h.limit⟩
    · rw [frames_next_some,List.getElem?_append] at hg
      split at hg
      · exact h.placed i g hg
      · rw [List.getElem?_singleton] at hg
        split at hg
        · obtain rfl := Option.some.inj hg
          obtain rfl : run.frames.length = i := by omega
          exact hplaced
        · simp at hg
    · rw [frames_next_some,List.length_append]
      exact h.lt hopen

theorem formed_next_none_iff (hindex : f.header.index < f.header.total) :
    (next none f).Formed limits ↔ f.header.index = 0 ∧
      f.payload.length ≤ f.header.messageLength.toNat ∧
      (f.header.total = 1 → f.payload.length = f.header.messageLength.toNat) ∧
      f.header.messageLength.toNat ≤ limits.messageSize.toNat := by
  rw [← ended_next_none_iff,← payload_next_none]
  constructor
  · exact fun hnext => ⟨UInt16.toNat_inj.mp (hnext.placed 0 f rfl).index,hnext.size,hnext.final,hnext.limit⟩
  · rintro ⟨hzero,hsize,hfinal,hlimit⟩
    refine ⟨fun i g hg => ?_,?_,hsize,hfinal,hlimit⟩
    · cases i with
      | zero =>
        obtain rfl := Option.some.inj hg
        exact ⟨congrArg UInt16.toNat hzero,rfl,rfl,rfl,rfl⟩
      | succ i => simp at hg
    · rw [UInt16.lt_iff_toNat_lt] at hindex
      exact Nat.succ_le_of_lt (Nat.zero_lt_of_lt hindex)

theorem grow_held (run : Run) (f : Frame) : run.held.grow f = (next (some run) f).held := by
  simp [Partial.grow,held,UInt16.ofNat_add]

/-- A key permits the frames that make a run with those before them; of the first of several frames the
capacity decides too. -/
theorem permits_iff (hrest : Open limits f rest) (hindex : f.header.index < f.header.total) :
    Permits limits f (rest.map held) ↔ (next rest f).Formed limits ∧
      (rest = none → f.header.total ≠ 1 →
        ¬ f.header.total.toUInt64*limits.framePayload < f.header.messageLength.toUInt64) := by
  cases rest with
  | none =>
    rw [formed_next_none_iff hindex]
    constructor
    · rintro ⟨hlimit,ho⟩
      refine ⟨⟨ho.index,?_,ho.whole,hlimit⟩,fun _ => ho.capacity⟩
      by_cases htotal : f.header.total = 1
      · exact Nat.le_of_eq (ho.whole htotal)
      · exact ho.size htotal
    · rintro ⟨⟨hzero,hsize,hwhole,hlimit⟩,hcap⟩
      exact ⟨hlimit,hzero,hwhole,hcap rfl,fun _ => hsize⟩
  | some run =>
    obtain ⟨hformed,hopen,hkey⟩ := hrest run rfl
    have hnext := hformed.toNat_next hopen
    rw [formed_next_some_iff hformed hopen]
    constructor
    · rintro ⟨-,hc⟩
      have hplace : f.header.index.toNat = run.frames.length := by rw [← hc.next,hnext]
      have htotal : f.header.total = run.first.header.total := hc.total.symm
      have hplaced : Placed run.first run.frames.length f :=
        ⟨hplace,hkey,hc.tag.symm,htotal,hc.messageLength.symm⟩
      refine ⟨⟨hplaced,?_,fun hend => ?_⟩,fun h => by simp at h⟩
      · rw [List.length_append]
        exact hc.size
      · rw [List.length_append]
        exact hc.last ((Header.isLast_iff hindex).mpr (by rw [hplace,htotal,ended_next_some_iff.mp hend]))
    · rintro ⟨⟨hplaced,hsize,hfinal⟩,-⟩
      rw [List.length_append] at hsize hfinal
      refine ⟨hplaced.messageLength ▸ hformed.limit,?_,?_,hplaced.tag.symm,hplaced.total.symm,
        hplaced.messageLength.symm,hsize,fun hlast => hfinal ?_⟩
      · intro hzero
        have hlength := hplaced.index
        rw [hzero] at hlength
        exact absurd run.one_le_length (by simp [← hlength])
      · rw [← UInt16.toNat_inj,hnext,hplaced.index]
      · rw [ended_next_some_iff,← hplaced.index,(Header.isLast_iff hindex).mp hlast,hplaced.total]

theorem advance_eq (hrest : Open limits f rest) (hindex : f.header.index < f.header.total)
    (hnext : (next rest f).Formed limits) :
    advance f (rest.map held) = if (next rest f).Ended then (none,some (next rest f).message)
      else (some (next rest f).held,none) := by
  cases rest with
  | none =>
    rw [Option.map_none,advance]
    by_cases hend : (next none f).Ended
    · rw [if_pos hend,if_pos (ended_next_none_iff.mp hend),message,payload_next_none]
      rfl
    · rw [if_neg hend,if_neg (mt ended_next_none_iff.mpr hend),held,payload_next_none]
      rfl
  | some run =>
    obtain ⟨hformed,hopen,hkey⟩ := hrest run rfl
    obtain ⟨hplaced,-⟩ := (formed_next_some_iff hformed hopen).mp hnext
    have hlast : f.header.isLast = true ↔ (next (some run) f).Ended := by
      rw [Header.isLast_iff hindex,hplaced.index,hplaced.total,ended_next_some_iff]
    obtain ⟨hcounter,hresponse⟩ := Prod.mk.inj hkey
    rw [Option.map_some,advance,grow_held,bytes_held,hcounter,hresponse]
    by_cases hend : (next (some run) f).Ended
    · rw [if_pos hend,if_pos (hlast.mpr hend)]
      rfl
    · rw [if_neg hend,if_neg (mt hlast.mp hend)]

end Run

/-! ### The frames of one key -/

variable {limits : Limits} {fs : List Frame} {done : List Run} {rest : Option Run} {f : Frame}

/-- The frames are runs one after the other, each of which has come to its end, and perhaps one more, which
has not. -/
structure Account (limits : Limits) (fs : List Frame) (done : List Run) (rest : Option Run) : Prop where
  frames : fs = done.flatMap Run.frames ++ rest.toList.flatMap Run.frames
  done : ∀ run ∈ done, run.Formed limits ∧ run.Ended
  rest : ∀ run ∈ rest, run.Formed limits ∧ ¬ run.Ended

theorem Account.isOpen (h : Account limits fs done rest) (hkey : ∀ g ∈ fs, g.key = f.key) :
    Run.Open limits f rest := by
  rintro run rfl
  obtain ⟨hformed,hopen⟩ := h.rest run rfl
  have hmem : run.first ∈ fs := by simp [h.frames,Run.frames]
  exact ⟨hformed,hopen,(hkey _ hmem).symm⟩

theorem Account.ended (h : Account limits fs done rest) (hnext : (Run.next rest f).Formed limits)
    (hend : (Run.next rest f).Ended) : Account limits (fs ++ [f]) (done ++ [Run.next rest f]) none := by
  refine ⟨?_,fun run hrun => ?_,fun run hrun => by simp at hrun⟩
  · rw [h.frames]
    simp [Run.frames_next]
  · rcases List.mem_append.mp hrun with hrun | hrun
    · exact h.done run hrun
    · obtain rfl := List.mem_singleton.mp hrun
      exact ⟨hnext,hend⟩

theorem Account.held (h : Account limits fs done rest) (hnext : (Run.next rest f).Formed limits)
    (hend : ¬ (Run.next rest f).Ended) : Account limits (fs ++ [f]) done (some (Run.next rest f)) := by
  refine ⟨?_,h.done,fun run hrun => ?_⟩
  · rw [h.frames]
    simp [Run.frames_next]
  · obtain rfl := Option.some.inj hrun
    exact ⟨hnext,hend⟩

/-- Frames that their key permits one after the other are runs, of which the ended ones are its messages
and the one that has not ended is what is held. -/
theorem exists_account {key : ChunkKey} (hkey : ∀ f ∈ fs, f.key = key)
    (hindex : ∀ f ∈ fs, f.header.index < f.header.total) (hp : Permitted limits none fs) :
    ∃ done rest, Account limits fs done rest ∧
      track none fs = (rest.map Run.held,done.map Run.message) := by
  induction fs using List.reverseRecOn with
  | nil => exact ⟨[],none,⟨rfl,by simp,by simp⟩,rfl⟩
  | append_singleton fs f ih =>
    simp only [List.mem_append,List.mem_singleton,or_imp,forall_and,forall_eq] at hkey hindex
    obtain ⟨hbefore,hself,-⟩ := (permitted_append limits none fs [f]).mp hp
    obtain ⟨done,rest,haccount,htrack⟩ := ih hkey.1 hindex.1 hbefore
    have hopen : Run.Open limits f rest := haccount.isOpen fun g hg => (hkey.1 g hg).trans hkey.2.symm
    rw [htrack] at hself
    obtain ⟨hnext,-⟩ := (Run.permits_iff hopen hindex.2).mp hself
    have hadvance := Run.advance_eq hopen hindex.2 hnext
    by_cases hend : (Run.next rest f).Ended
    · rw [if_pos hend] at hadvance
      exact ⟨_,_,haccount.ended hnext hend,by simp [track_append,htrack,track,hadvance]⟩
    · rw [if_neg hend] at hadvance
      exact ⟨_,_,haccount.held hnext hend,by simp [track_append,htrack,track,hadvance]⟩

/-! ### The messages that are half received -/

theorem inProgress_put_le_of_some {r : Reassembler} {key : ChunkKey} {p : Partial}
    (h : r.get? key = some p) (held : Option Partial) : (r.put key held).inProgress ≤ r.inProgress := by
  have herase : (r.erase key).inProgress < r.inProgress := by
    have hsome := Option.isSome_of_eq_some h
    rw [get?,List.lookup_isSome_iff] at hsome
    obtain ⟨e,he,hkey⟩ := hsome
    obtain rfl := beq_iff_eq.mp hkey
    exact List.length_filter_lt_length_iff_exists.mpr ⟨e,he,by simp⟩
  cases held with
  | none => exact Nat.le_of_lt herase
  | some p' => exact herase

theorem inProgress_le_of_push {r r' : Reassembler} {out : Option Message}
    (h : r.push limits f = (r',.ok out)) (hle : r.inProgress ≤ limits.partialMessages.toNat) :
    r'.inProgress ≤ limits.partialMessages.toNat := by
  obtain ⟨-,hroom,rfl,-⟩ := (push_ok_iff limits r r' f out).mp h
  cases hget : r.get? f.key with
  | some p => exact (inProgress_put_le_of_some hget _).trans hle
  | none =>
    by_cases htotal : f.header.total = 1
    · rwa [advance,if_pos htotal,put_none_of_get?_none hget]
    · rw [advance,if_neg htotal,put,insert,inProgress,erase_of_get?_none hget]
      exact hroom hget htotal

theorem inProgress_le_of_run {r r' : Reassembler} {ms : List Message}
    (h : run limits r fs = some (r',ms)) (hle : r.inProgress ≤ limits.partialMessages.toNat) :
    r'.inProgress ≤ limits.partialMessages.toNat := by
  induction fs generalizing r ms with
  | nil =>
    obtain ⟨rfl,-⟩ := Prod.mk.inj (Option.some.inj h)
    exact hle
  | cons f fs ih =>
    obtain ⟨r₁,out,ms',hpush,hrest,-⟩ := (run_cons_eq_some_iff limits r r' f fs ms).mp h
    exact ih hrest (inProgress_le_of_push hpush hle)

/-! ### What a frame is refused for -/

/-- What a frame can be refused for, in view of the run that has not ended under its key and of how many
keys have one: it does not go on with the run, its bytes break the length that it tells, or a limit. Any of
these suffices, and the fault names the one that is met first. -/
inductive Ground (limits : Limits) (busy : Nat) (f : Frame) : Option Run → ProtocolFault → Prop
  | restarted {run : Run} : f.header.index = 0 →
    Ground limits busy f (some run) (.restarted f.header.counter)
  | noFirstChunk : f.header.index ≠ 0 →
    Ground limits busy f none (.noFirstChunk f.header.index f.header.counter)
  | chunkOrder {run : Run} : f.header.index.toNat ≠ run.frames.length →
    Ground limits busy f (some run) (.chunkOrder f.header.counter run.held.next f.header.index)
  | disagreement {run : Run} : run.first.header.tag ≠ f.header.tag ∨
      run.first.header.total ≠ f.header.total ∨ run.first.header.messageLength ≠ f.header.messageLength →
    Ground limits busy f (some run) (.disagreement f.header.counter)
  | wholeLength : f.header.total = 1 → f.payload.length ≠ f.header.messageLength.toNat →
    Ground limits busy f none
      (.wholeLength f.header.counter f.payload.length f.header.messageLength)
  | overrun {rest : Option Run} : f.header.messageLength.toNat < (Run.next rest f).payload.length →
    Ground limits busy f rest (.overrun f.header.counter f.header.messageLength)
  | finalLength {run : Run} : f.header.index.toNat + 1 = f.header.total.toNat →
    (Run.next (some run) f).payload.length ≠ f.header.messageLength.toNat →
    Ground limits busy f (some run)
      (.finalLength f.header.counter (Run.next (some run) f).payload.length f.header.messageLength)
  | messageSize {rest : Option Run} : limits.messageSize.toNat < f.header.messageLength.toNat →
    Ground limits busy f rest (.messageSize f.header.messageLength limits.messageSize)
  | capacity : f.header.total ≠ 1 →
    f.header.total.toNat*limits.framePayload.toNat % 2^64 < f.header.messageLength.toNat →
    Ground limits busy f none
      (.capacity f.header.counter f.header.messageLength f.header.total)
  | tooManyPartial : f.header.total ≠ 1 → limits.partialMessages.toNat ≤ busy →
    Ground limits busy f none (.tooManyPartial limits.partialMessages)

variable {r r' : Reassembler} {fault : ProtocolFault}

theorem ground_of_pushFirst (hget : r.get? f.key = rest.map Run.held) (hindex : f.header.index = 0)
    (h : pushFirst limits r f = (r',.error fault)) : Ground limits r.inProgress f rest fault := by
  rw [pushFirst_eq,hget] at h
  cases rest with
  | some run =>
    simp only [Option.map_some,Option.isSome_some,if_true] at h
    obtain rfl := Except.error.inj (Prod.mk.inj h).2
    exact .restarted hindex
  | none =>
    simp only [Option.map_none,Option.isSome_none,Bool.false_eq_true,if_false] at h
    split at h
    · rename_i htotal
      split at h
      · rename_i hlength
        obtain rfl := Except.error.inj (Prod.mk.inj h).2
        exact .wholeLength htotal hlength
      · simp at h
    · rename_i htotal
      split at h
      · rename_i hcap
        obtain rfl := Except.error.inj (Prod.mk.inj h).2
        exact .capacity htotal ((Limits.capacity_lt_iff ..).mp hcap)
      · split at h
        · rename_i hfull
          obtain rfl := Except.error.inj (Prod.mk.inj h).2
          exact .tooManyPartial htotal hfull
        · rw [store_grow] at h
          split at h
          · rename_i hover
            obtain rfl := Except.error.inj (Prod.mk.inj h).2
            exact .overrun (by simpa using hover)
          · simp at h

theorem ground_of_pushLater (hget : r.get? f.key = rest.map Run.held)
    (hopen : Run.Open limits f rest) (hplace : f.header.index < f.header.total)
    (hindex : f.header.index ≠ 0) (h : pushLater r f = (r',.error fault)) :
    Ground limits r.inProgress f rest fault := by
  have hkey : r.get? (f.header.counter,f.header.isResponse) = rest.map Run.held := hget
  cases rest with
  | none =>
    simp only [pushLater,hkey,Option.map_none] at h
    obtain rfl := Except.error.inj (Prod.mk.inj h).2
    exact .noFirstChunk hindex
  | some run =>
    simp only [pushLater,hkey,Option.map_some,store_grow] at h
    have hsize : run.held.size + f.payload.length = (Run.next (some run) f).payload.length := by
      simp [Run.held]
    split at h
    · rename_i hdiffer
      obtain rfl := Except.error.inj (Prod.mk.inj h).2
      exact .disagreement hdiffer
    · rename_i hagree
      simp only [not_or,not_not] at hagree
      split at h
      · rename_i horder
        obtain rfl := Except.error.inj (Prod.mk.inj h).2
        refine .chunkOrder fun hlength => horder ?_
        obtain ⟨hformed,hnot,-⟩ := hopen run rfl
        rw [← UInt16.toNat_inj,hformed.toNat_next hnot,hlength]
      · rw [hsize,hagree.2.2] at h
        by_cases hover : f.header.messageLength.toNat < (Run.next (some run) f).payload.length
        · simp only [if_pos hover] at h
          obtain rfl := Except.error.inj (Prod.mk.inj h).2
          exact .overrun hover
        · simp only [if_neg hover] at h
          split at h
          · simp at h
          · rename_i hlast
            split at h
            · rename_i hfinal
              obtain rfl := Except.error.inj (Prod.mk.inj h).2
              exact .finalLength ((Header.isLast_iff hplace).mp (by simpa using hlast)) hfinal
            · simp at h

theorem ground_of_push (hopen : Run.Open limits f rest) (hget : r.get? f.key = rest.map Run.held)
    (hplace : f.header.index < f.header.total) (h : r.push limits f = (r',.error fault)) :
    Ground limits r.inProgress f rest fault := by
  rw [push_eq] at h
  split at h
  · rename_i hsize
    obtain rfl := Except.error.inj (Prod.mk.inj h).2
    exact .messageSize hsize
  · split at h
    · rename_i hindex
      exact ground_of_pushFirst hget hindex h
    · rename_i hindex
      exact ground_of_pushLater hget hopen hplace hindex h

/-- A frame that there is a ground to refuse is not taken in. -/
theorem Ground.not_ok (hg : Ground limits r.inProgress f rest fault) (hopen : Run.Open limits f rest)
    (hget : r.get? f.key = rest.map Run.held) (hplace : f.header.index < f.header.total)
    {out : Option Message} : r.push limits f ≠ (r',.ok out) := by
  intro h
  obtain ⟨hpermits,hroom,-⟩ := (push_ok_iff limits r r' f out).mp h
  rw [hget] at hpermits
  obtain ⟨hnext,hcap⟩ := (Run.permits_iff hopen hplace).mp hpermits
  -- the run with the frame is formed, so the frame agrees with the first one and has its place
  have hfirst : ∀ run, rest = some run → Placed run.first run.frames.length f := by
    rintro run rfl
    exact hnext.placed run.frames.length f (by simp)
  have hlength : (Run.next rest f).first.header.messageLength = f.header.messageLength := by
    cases rest with
    | none => rfl
    | some run => exact (hfirst run rfl).messageLength.symm
  have hsize := hnext.size
  rw [hlength] at hsize
  cases hg with
  | restarted hzero =>
    rename_i run
    have hindex := (hfirst run rfl).index
    rw [hzero] at hindex
    exact absurd run.one_le_length (by simp [← hindex])
  | noFirstChunk hindex => exact hindex ((Run.formed_next_none_iff hplace).mp hnext).1
  | chunkOrder horder => exact horder (hfirst _ rfl).index
  | disagreement hdiffer =>
    have hplaced := hfirst _ rfl
    simp [hplaced.tag,hplaced.total,hplaced.messageLength] at hdiffer
  | wholeLength htotal hwhole => exact hwhole (((Run.formed_next_none_iff hplace).mp hnext).2.2.1 htotal)
  | overrun hover => exact absurd hsize (Nat.not_le.mpr hover)
  | finalLength hlast hfinal =>
    rename_i run
    have hplaced := hfirst run rfl
    rw [hplaced.index,hplaced.total] at hlast
    exact hfinal (hlength ▸ hnext.final (Run.ended_next_some_iff.mpr hlast))
  | messageSize hlarge =>
    have hlimit := hnext.limit
    rw [hlength] at hlimit
    exact absurd hlimit (Nat.not_le.mpr hlarge)
  | capacity htotal hless => exact hcap rfl htotal ((Limits.capacity_lt_iff ..).mpr hless)
  | tooManyPartial htotal hfull => exact absurd (hroom hget htotal) (Nat.not_lt.mpr hfull)

/-! ### All that is taken in -/

/-- A partial message holds the bytes of a run, all of them and no others. -/
structure Run.HeldBy (run : Run) (p : Partial) : Prop where
  bytes : p.bytes = run.payload
  next : p.next.toNat = run.frames.length
  begun : 1 ≤ p.next.toNat
  lt : p.next < p.total
  size : p.bytes.length ≤ p.messageLength.toNat

theorem Run.Formed.heldBy {run : Run} (h : run.Formed limits) (hopen : ¬ run.Ended) :
    run.HeldBy run.held := by
  have hnext := h.toNat_next hopen
  refine ⟨run.bytes_held,hnext,hnext ▸ run.one_le_length,?_,run.bytes_held ▸ h.size⟩
  rw [UInt16.lt_iff_toNat_lt,hnext]
  exact h.lt hopen

/-- What a frame leads to, in view of the run that has not ended under its key: a message if it ends that
run, and a refusal if there is a ground for it. -/
structure Judged (limits : Limits) (busy : Nat) (rest : Option Run) (f : Frame) (result : Pushed) :
    Prop where
  message : ∀ m, result = .ok (some m) ↔
    (Run.next rest f).Formed limits ∧ (Run.next rest f).Ended ∧ m = (Run.next rest f).message
  accepted : (∃ out, result = .ok out) ↔ ∀ fault, ¬ Ground limits busy f rest fault
  refused : ∀ fault, result = .error fault → Ground limits busy f rest fault

theorem push_message_iff (hopen : Run.Open limits f rest) (hget : r.get? f.key = rest.map Run.held)
    (hplace : f.header.index < f.header.total) (m : Message) :
    (r.push limits f).2 = .ok (some m) ↔
      (Run.next rest f).Formed limits ∧ (Run.next rest f).Ended ∧ m = (Run.next rest f).message := by
  constructor
  · intro h
    obtain ⟨hpermits,-,-,hout⟩ := (push_ok_iff limits r _ f (some m)).mp (Prod.ext rfl h)
    rw [hget] at hpermits hout
    obtain ⟨hnext,-⟩ := (Run.permits_iff hopen hplace).mp hpermits
    rw [Run.advance_eq hopen hplace hnext] at hout
    split at hout
    · rename_i hend
      exact ⟨hnext,hend,Option.some.inj hout⟩
    · simp at hout
  · rintro ⟨hnext,hend,rfl⟩
    -- a first frame that ends its run is the only one, and then neither limit counts
    have hone : rest = none → f.header.total = 1 := by
      rintro rfl
      exact Run.ended_next_none_iff.mp hend
    have hpermits : Permits limits f (r.get? f.key) := by
      rw [hget]
      exact (Run.permits_iff hopen hplace).mpr ⟨hnext,fun hnone htotal => absurd (hone hnone) htotal⟩
    have hroom : HasRoom limits r f := by
      intro hnone htotal
      rw [hget,Option.map_eq_none_iff] at hnone
      exact absurd (hone hnone) htotal
    have hpush := (push_ok_iff limits r _ f _).mpr ⟨hpermits,hroom,rfl,rfl⟩
    rw [hpush,hget,Run.advance_eq hopen hplace hnext,if_pos hend]

theorem judged_push (hopen : Run.Open limits f rest) (hget : r.get? f.key = rest.map Run.held)
    (hplace : f.header.index < f.header.total) :
    Judged limits r.inProgress rest f (r.push limits f).2 := by
  have hrefused : ∀ fault, (r.push limits f).2 = .error fault → Ground limits r.inProgress f rest fault :=
    fun fault h => ground_of_push hopen hget hplace (Prod.ext rfl h)
  refine ⟨push_message_iff hopen hget hplace,⟨?_,fun hnone => ?_⟩,hrefused⟩
  · rintro ⟨out,h⟩ fault hg
    exact hg.not_ok hopen hget hplace (Prod.ext rfl h)
  · cases h : (r.push limits f).2 with
    | ok out => exact ⟨out,rfl⟩
    | error fault => exact absurd (hrefused fault h) (hnone fault)

/-- With checked capacities the frame stops the program: it is the first of several, where no run has begun,
and they could hold more bytes than a word can count. -/
structure Stops (limits : Limits) (rest : Option Run) (f : Frame) : Prop where
  free : rest = none
  index : f.header.index = 0
  several : f.header.total ≠ 1
  size : f.header.messageLength.toNat ≤ limits.messageSize.toNat
  capacity : 2^64 ≤ f.header.total.toNat*limits.framePayload.toNat

theorem outgrows_iff (hget : r.get? f.key = rest.map Run.held) :
    Outgrows limits r f ↔ Stops limits rest f := by
  have hfree : r.get? f.key = none ↔ rest = none := by rw [hget,Option.map_eq_none_iff]
  exact ⟨fun h => ⟨hfree.mp h.free,h.index,h.several,h.size,h.capacity⟩,
    fun h => ⟨h.size,h.index,hfree.mpr h.free,h.several,h.capacity⟩⟩

/-- Frames with headers that can be read, pushed until one is refused. No more messages are half received
than the limit says. Those frames under a key that were taken in are runs, each of which has given its
message when it ended, and the one that has not ended is what is held under the key, byte for byte. The
next frame gives a message exactly if it ends a run, and is refused exactly if there is a ground for it.
Checking capacities changes nothing of this but that it may stop the program before. -/
theorem account_of_run (limits : Limits) (before : List Frame) (f : Frame) {r : Reassembler}
    {ms : List Message} (hread : ∀ g ∈ before ++ [f], ∃ bytes, Header.decode bytes = .ok g.header)
    (hrun : run limits {} before = some (r,ms)) :
    r.inProgress ≤ limits.partialMessages.toNat ∧
    (runChecked limits {} before = .ok (some (r,ms)) ∨
      runChecked limits {} before = .error .overflow) ∧
    ∀ key, ∃ done rest, Account limits (before.filter (·.key == key)) done rest ∧
      ms.filter (·.key == key) = done.map Run.message ∧
      Option.Rel Run.HeldBy rest (r.get? key) ∧
      (f.key = key → Judged limits r.inProgress rest f (r.push limits f).2 ∧
        (Stops limits rest f → r.pushIn Checked limits f = .error .overflow) ∧
        (¬ Stops limits rest f → r.pushIn Checked limits f = .ok (r.push limits f))) := by
  have hindex : ∀ g ∈ before ++ [f], g.header.index < g.header.total := by
    intro g hg
    obtain ⟨bytes,hd⟩ := hread g hg
    exact Header.index_lt_total_of_decode hd
  simp only [List.mem_append,List.mem_singleton,or_imp,forall_and,forall_eq] at hindex
  refine ⟨inProgress_le_of_run hrun (Nat.zero_le _),runChecked_of_run hrun,fun key => ?_⟩
  have hkey : ∀ g ∈ before.filter (·.key == key), g.key = key :=
    fun g hg => by simpa using (List.mem_filter.mp hg).2
  obtain ⟨done,rest,haccount,htrack⟩ := exists_account hkey
    (fun g hg => hindex.1 g (List.mem_filter.mp hg).1) (permitted_of_run hrun key)
  obtain ⟨hget,hms⟩ := Prod.mk.inj ((track_of_run limits hrun key).symm.trans htrack)
  refine ⟨done,rest,haccount,hms,?_,?_⟩
  · rw [hget]
    cases rest with
    | none => exact .none
    | some run =>
      obtain ⟨hformed,hopen⟩ := haccount.rest run rfl
      exact .some (hformed.heldBy hopen)
  · rintro rfl
    refine ⟨judged_push (haccount.isOpen hkey) hget hindex.2,?_⟩
    rw [← outgrows_iff hget,pushIn_checked]
    exact ⟨fun h => if_pos h,fun h => if_neg h⟩

/-- A request of two frames between the frames of another one, and a reply under its counter: the frame that
comes next ends it. -/
theorem account_of_run_two :
    let limits : Limits := { framePayload := 4, partialMessages := 2 }
    let asked (index : UInt16) (payload : List UInt8) : Frame :=
      ⟨⟨1,.echo,1,{},index,2,3,UInt32.ofNat payload.length⟩,payload⟩
    let filed (index : UInt16) (payload : List UInt8) : Frame :=
      ⟨⟨2,.file,1,{},index,3,5,UInt32.ofNat payload.length⟩,payload⟩
    let reply : Frame := ⟨⟨1,.ok,1,{ response := true },0,1,0,0⟩,[]⟩
    let before := [asked 0 [1,2],filed 0 [4,5],reply,filed 1 [6,7]]
    let f := asked 1 [3]
    (∀ g ∈ before ++ [f], ∃ bytes, Header.decode bytes = .ok g.header) ∧
    ∃ r ms, run limits {} before = some (r,ms) ∧ r.inProgress ≤ limits.partialMessages.toNat ∧
      ∃ done rest, Account limits (before.filter (·.key == f.key)) done rest ∧
        ms.filter (·.key == f.key) = done.map Run.message ∧
        (Run.next rest f).Formed limits ∧ (Run.next rest f).Ended ∧
        (Run.next rest f).message = ⟨1,.echo,false,[1,2,3]⟩ := by
  intro limits asked filed reply before f
  have hread : ∀ g ∈ before ++ [f], ∃ bytes, Header.decode bytes = .ok g.header := by
    have hproper : ∀ g ∈ before ++ [f],
        g.header.version = Header.currentVersion ∧ g.header.index < g.header.total := by decide
    exact fun g hg => ⟨_,Header.decode_encode g.header (hproper g hg).1 (hproper g hg).2⟩
  obtain ⟨⟨r,ms⟩,hrun⟩ := Option.isSome_iff_exists.mp (show (run limits {} before).isSome by decide)
  obtain ⟨hbusy,-,hkeys⟩ := account_of_run limits before f hread hrun
  obtain ⟨done,rest,haccount,hms,-,hnext⟩ := hkeys f.key
  obtain ⟨hjudged,-⟩ := hnext rfl
  have hpush : (r.push limits f).2 = .ok (some ⟨1,.echo,false,[1,2,3]⟩) := by
    have hr : r = ((run limits {} before).get (by decide)).1 := by simp [hrun]
    rw [hr]
    decide
  obtain ⟨hnext,hend,hmessage⟩ := (hjudged.message _).mp hpush
  exact ⟨hread,r,ms,hrun,hbusy,done,rest,haccount,hms,hnext,hend,hmessage.symm⟩

/-- Four frames that are a whole run within all limits, and far below what four of the largest frames hold.
The product of four and the largest payload is more than a word can hold: if it is checked, the first frame
stops the program, and if it wraps to nothing, that frame is refused for it. -/
theorem refused_of_formed :
    let limits : Limits := { framePayload := 4611686018427387904 }
    let frame (index : UInt16) (payload : List UInt8) : Frame :=
      ⟨⟨7,.file,1,{},index,4,8,UInt32.ofNat payload.length⟩,payload⟩
    let whole : Run := ⟨frame 0 [1,2],[frame 1 [3,4],frame 2 [5,6],frame 3 [7,8]]⟩
    (∀ g ∈ whole.frames, ∃ bytes, Header.decode bytes = .ok g.header) ∧
    whole.Formed limits ∧ whole.Ended ∧
    whole.first.header.messageLength.toNat ≤
      whole.first.header.total.toNat*limits.framePayload.toNat ∧
    pushIn Checked limits {} whole.first = .error .overflow ∧
    (push limits {} whole.first).2 = .error (.capacity 7 8 4) ∧
    ∀ fault, Ground limits 0 whole.first none fault → fault = .capacity 7 8 4 := by
  intro limits frame whole
  refine ⟨fun g hg => ?_,⟨fun i g hg => ?_,by decide,by decide,by decide,by decide⟩,by decide,by decide,
    by decide,by decide,fun fault hg => ?_⟩
  · have hproper : ∀ g ∈ whole.frames,
        g.header.version = Header.currentVersion ∧ g.header.index < g.header.total := by decide
    exact ⟨_,Header.decode_encode g.header (hproper g hg).1 (hproper g hg).2⟩
  · rcases i with _ | _ | _ | _ | i
    all_goals cases hg
    all_goals exact ⟨rfl,rfl,rfl,rfl,rfl⟩
  · cases hg with
    | noFirstChunk h => exact absurd rfl h
    | wholeLength h => exact absurd h (by decide)
    | overrun h => exact absurd h (by decide)
    | messageSize h => exact absurd h (by decide)
    | capacity => rfl
    | tooManyPartial _ h => exact absurd h (by decide)

end Reassembler
end Tether
