import Mathlib.Tactic.Common
import Tether.Proofs.Arithmetic
import Tether.Wire.Reassembly

/-! Reassembly key by key. A frame touches the partial message under its own key and nothing else, and
what becomes of that message is a function of the frames of its key alone; only the bound on how many
messages are half received ties the keys together. -/
namespace Tether

/-- The counter and the direction, under which the chunks of a message come together. -/
def Frame.key (f : Frame) : ChunkKey := (f.header.counter,f.header.isResponse)

def Message.key (m : Message) : ChunkKey := (m.counter,m.response)

def Partial.grow (p : Partial) (f : Frame) : Partial :=
  { p with
    next := p.next + 1
    pieces := f.payload :: p.pieces
    size := p.size + f.payload.length }

namespace Reassembler

/-! ### Entries -/

def put (r : Reassembler) (key : ChunkKey) : Option Partial → Reassembler
  | none => r.erase key
  | some p => r.insert key p

theorem get?_erase (r : Reassembler) (key key' : ChunkKey) :
    (r.erase key).get? key' = if key' = key then none else r.get? key' := by
  rcases r with ⟨entries⟩
  simp only [get?,erase]
  induction entries with
  | nil => simp
  | cons e entries ih =>
    rcases e with ⟨k,p⟩
    by_cases hk : k = key
    · subst hk
      simp only [List.filter_cons,bne_self_eq_false,Bool.false_eq_true,if_false,ih,List.lookup_cons]
      by_cases hk' : key' = k
      · simp [hk']
      · simp [hk',beq_eq_false_iff_ne.mpr hk']
    · have hb : (k != key) = true := bne_iff_ne.mpr hk
      simp only [List.filter_cons,hb,if_true,List.lookup_cons,ih]
      by_cases hk' : key' = k
      · subst hk'
        simp [hk]
      · simp [beq_eq_false_iff_ne.mpr hk']

theorem get?_put (r : Reassembler) (key key' : ChunkKey) (held : Option Partial) :
    (r.put key held).get? key' = if key' = key then held else r.get? key' := by
  cases held with
  | none => exact get?_erase r key key'
  | some p =>
    have herase := get?_erase r key key'
    simp only [get?] at herase
    simp only [put,insert,get?,List.lookup_cons]
    by_cases hk : key' = key
    · simp [hk]
    · simp [hk,beq_eq_false_iff_ne.mpr hk,herase]

@[simp] theorem get?_put_self (r : Reassembler) (key : ChunkKey) (held : Option Partial) :
    (r.put key held).get? key = held := by
  simp [get?_put]

theorem get?_put_of_ne (r : Reassembler) {key key' : ChunkKey} (h : key' ≠ key)
    (held : Option Partial) : (r.put key held).get? key' = r.get? key' := by
  simp [get?_put,h]

theorem erase_of_get?_none {r : Reassembler} {key : ChunkKey} (h : r.get? key = none) :
    r.erase key = r := by
  rcases r with ⟨entries⟩
  simp only [get?,List.lookup_eq_none_iff] at h
  simp only [erase,Reassembler.mk.injEq,List.filter_eq_self]
  intro e he
  exact bne_iff_ne.mpr (Ne.symm (bne_iff_ne.mp (h e he)))

theorem put_none_of_get?_none {r : Reassembler} {key : ChunkKey} (h : r.get? key = none) :
    r.put key none = r := erase_of_get?_none h

@[simp] theorem erase_erase (r : Reassembler) (key : ChunkKey) :
    (r.erase key).erase key = r.erase key := by
  simp [erase]

@[simp] theorem erase_insert (r : Reassembler) (key : ChunkKey) (p : Partial) :
    (r.insert key p).erase key = r.erase key := by
  simp [erase,insert]

@[simp] theorem put_put (r : Reassembler) (key : ChunkKey) (held held' : Option Partial) :
    (r.put key held).put key held' = r.put key held' := by
  cases held <;> cases held' <;> simp [put,insert,erase]

/-! ### One frame -/

/-- What becomes of the message under a key with one more frame, and the message if that ends it. -/
def advance (f : Frame) : Option Partial → Option Partial × Option Message
  | none =>
    if f.header.total = 1 then (none,some ⟨f.header.counter,f.header.tag,f.header.isResponse,f.payload⟩)
    else (some ⟨f.header.tag,1,f.header.total,f.header.messageLength,[f.payload],f.payload.length⟩,none)
  | some p =>
    if f.header.isLast then
      (none,some ⟨f.header.counter,p.tag,f.header.isResponse,(p.grow f).bytes⟩)
    else (some (p.grow f),none)

/-- The frame is a first chunk that can be taken in, apart from the number of partial messages. -/
structure Opens (limits : Limits) (f : Frame) : Prop where
  index : f.header.index = 0
  whole : f.header.total = 1 → f.payload.length = f.header.messageLength.toNat
  capacity : f.header.total ≠ 1 →
    ¬ f.header.total.toUInt64*limits.framePayload < f.header.messageLength.toUInt64
  size : f.header.total ≠ 1 → f.payload.length ≤ f.header.messageLength.toNat

/-- The frame is the next chunk of the partial message. -/
structure Continues (p : Partial) (f : Frame) : Prop where
  index : f.header.index ≠ 0
  next : p.next = f.header.index
  tag : p.tag = f.header.tag
  total : p.total = f.header.total
  messageLength : p.messageLength = f.header.messageLength
  size : (p.grow f).size ≤ p.messageLength.toNat
  last : f.header.isLast = true → (p.grow f).size = p.messageLength.toNat

/-- What is asked of a frame by its own key. -/
def Permits (limits : Limits) (f : Frame) (held : Option Partial) : Prop :=
  f.header.messageLength.toNat ≤ limits.messageSize.toNat ∧
    match held with
    | none => Opens limits f
    | some p => Continues p f

/-- What is asked of a frame by all keys together. -/
def HasRoom (limits : Limits) (r : Reassembler) (f : Frame) : Prop :=
  r.get? f.key = none → f.header.total ≠ 1 → r.inProgress < limits.partialMessages.toNat

/-- The first chunk of a message, where capacities wrap. -/
def pushFirst (limits : Limits) (r : Reassembler) (f : Frame) : Reassembler × Pushed :=
  pushFirstIn Wrapping limits r f

theorem push_eq (limits : Limits) (r : Reassembler) (f : Frame) : r.push limits f =
    if limits.messageSize.toNat < f.header.messageLength.toNat then
      (r,.error (.messageSize f.header.messageLength limits.messageSize))
    else if f.header.index = 0 then pushFirst limits r f
    else pushLater r f := rfl

theorem pushFirst_eq (limits : Limits) (r : Reassembler) (f : Frame) : pushFirst limits r f =
    if (r.get? f.key).isSome then (r,.error (.restarted f.header.counter))
    else if f.header.total = 1 then
      if f.payload.length ≠ f.header.messageLength.toNat then
        (r,.error (.wholeLength f.header.counter f.payload.length f.header.messageLength))
      else (r,.ok (some ⟨f.header.counter,f.header.tag,f.header.isResponse,f.payload⟩))
    else if f.header.total.toUInt64*limits.framePayload < f.header.messageLength.toUInt64 then
      (r,.error (.capacity f.header.counter f.header.messageLength f.header.total))
    else if limits.partialMessages.toNat ≤ r.inProgress then
      (r,.error (.tooManyPartial limits.partialMessages))
    else r.store f.key
      ⟨f.header.tag,1,f.header.total,f.header.messageLength,[f.payload],f.payload.length⟩ := rfl

theorem pushFirst_eq_ok {limits : Limits} {r : Reassembler} {f : Frame} (hget : r.get? f.key = none)
    (ho : Opens limits f) (hr : HasRoom limits r f) :
    pushFirst limits r f = (r.put f.key (advance f none).1,.ok (advance f none).2) := by
  rw [pushFirst_eq]
  by_cases htotal : f.header.total = 1
  · simp [advance,hget,htotal,ho.whole htotal,put_none_of_get?_none hget]
  · have hroom := Nat.not_le.mpr (hr hget htotal)
    have hsize := Nat.not_lt.mpr (ho.size htotal)
    simp [advance,hget,htotal,ho.capacity htotal,hroom,store,hsize,put]

theorem of_pushFirst_ok {limits : Limits} {r r' : Reassembler} {f : Frame} {out : Option Message}
    (hindex : f.header.index = 0) (h : pushFirst limits r f = (r',.ok out)) :
    r.get? f.key = none ∧ Opens limits f ∧ HasRoom limits r f := by
  rw [pushFirst_eq] at h
  split at h
  · simp at h
  · rename_i hget
    have hnone : r.get? f.key = none := by simpa [Frame.key] using hget
    split at h
    · rename_i htotal
      split at h
      · simp at h
      · rename_i hlen
        exact ⟨hnone,⟨hindex,fun _ => not_not.mp hlen,fun hn => absurd htotal hn,
          fun hn => absurd htotal hn⟩,fun _ hn => absurd htotal hn⟩
    · rename_i htotal
      split at h
      · simp at h
      · rename_i hcap
        split at h
        · simp at h
        · rename_i hfull
          unfold store at h
          simp only at h
          split at h
          · simp at h
          · rename_i hsize
            exact ⟨hnone,⟨hindex,fun ht => absurd ht htotal,fun _ => hcap,fun _ => Nat.not_lt.mp hsize⟩,
              fun _ _ => Nat.lt_of_not_le hfull⟩

theorem store_grow (r : Reassembler) (key : ChunkKey) (p : Partial) :
    r.store key p = (r.put key (some p),if p.messageLength.toNat < p.size then
      .error (.overrun key.1 p.messageLength) else .ok none) := by
  unfold store
  simp only
  split <;> rfl

theorem pushLater_eq_ok {r : Reassembler} {f : Frame} {p : Partial} (hget : r.get? f.key = some p)
    (hc : Continues p f) :
    pushLater r f = (r.put f.key (advance f (some p)).1,.ok (advance f (some p)).2) := by
  have hkey : r.get? (f.header.counter,f.header.isResponse) = some p := hget
  have hagree : ¬ (p.tag ≠ f.header.tag ∨ p.total ≠ f.header.total ∨
      p.messageLength ≠ f.header.messageLength) := by
    simp [hc.tag,hc.total,hc.messageLength]
  have hsize : ¬ p.messageLength.toNat < p.size + f.payload.length := Nat.not_lt.mpr hc.size
  simp only [pushLater,hkey,hagree,hc.next,ne_eq,not_true_eq_false,if_false,store_grow,hsize]
  by_cases hlast : f.header.isLast = true
  · have hfinal : p.size + f.payload.length = p.messageLength.toNat := hc.last hlast
    simp [advance,hlast,hfinal,put,Frame.key,Partial.grow,Partial.bytes,hc.next]
  · simp [advance,hlast,Frame.key,Partial.grow,hc.next]

theorem of_pushLater_ok {r r' : Reassembler} {f : Frame} {out : Option Message}
    (hindex : f.header.index ≠ 0) (h : pushLater r f = (r',.ok out)) :
    ∃ p, r.get? f.key = some p ∧ Continues p f := by
  unfold pushLater at h
  simp only at h
  split at h
  · simp at h
  · rename_i p hget
    split at h
    · simp at h
    · rename_i hagree
      simp only [not_or,not_not] at hagree
      split at h
      · simp at h
      · rename_i hnext
        rw [store_grow] at h
        by_cases hover : p.messageLength.toNat < p.size + f.payload.length
        · simp [hover] at h
        · refine ⟨p,hget,hindex,not_not.mp hnext,hagree.1,hagree.2.1,hagree.2.2,Nat.not_lt.mp hover,?_⟩
          intro hlast
          by_contra hfinal
          simp only [Partial.grow] at hfinal
          simp [hover,hlast,hfinal] at h

/-- A frame is taken in exactly if its key permits it and there is room, and then it advances the
message under its key and changes nothing else. -/
theorem push_ok_iff (limits : Limits) (r r' : Reassembler) (f : Frame) (out : Option Message) :
    r.push limits f = (r',.ok out) ↔
      Permits limits f (r.get? f.key) ∧ HasRoom limits r f ∧
        r' = r.put f.key (advance f (r.get? f.key)).1 ∧ out = (advance f (r.get? f.key)).2 := by
  constructor
  · intro h
    rw [push_eq] at h
    split at h
    · simp at h
    · rename_i hsize
      have hle := Nat.not_lt.mp hsize
      split at h
      · rename_i hindex
        obtain ⟨hget,ho,hr⟩ := of_pushFirst_ok hindex h
        rw [pushFirst_eq_ok hget ho hr,Prod.mk.injEq,Except.ok.injEq] at h
        exact ⟨⟨hle,by rw [hget]; exact ho⟩,hr,by rw [hget]; exact h.1.symm,by rw [hget]; exact h.2.symm⟩
      · rename_i hindex
        obtain ⟨p,hget,hc⟩ := of_pushLater_ok hindex h
        rw [pushLater_eq_ok hget hc,Prod.mk.injEq,Except.ok.injEq] at h
        refine ⟨⟨hle,by rw [hget]; exact hc⟩,fun hn => ?_,by rw [hget]; exact h.1.symm,
          by rw [hget]; exact h.2.symm⟩
        simp [hget] at hn
  · rintro ⟨⟨hle,hp⟩,hr,rfl,rfl⟩
    rw [push_eq,if_neg (Nat.not_lt.mpr hle)]
    cases hget : r.get? f.key with
    | none =>
      rw [hget] at hp
      rw [if_pos hp.index,pushFirst_eq_ok hget hp hr]
    | some p =>
      rw [hget] at hp
      rw [if_neg hp.index,pushLater_eq_ok hget hp]

/-- The capacity of the frame's chunks is asked for, and is more than a word can hold. -/
structure Outgrows (limits : Limits) (r : Reassembler) (f : Frame) : Prop where
  size : f.header.messageLength.toNat ≤ limits.messageSize.toNat
  index : f.header.index = 0
  free : r.get? f.key = none
  several : f.header.total ≠ 1
  capacity : 2^64 ≤ f.header.total.toNat*limits.framePayload.toNat

instance (limits : Limits) (r : Reassembler) (f : Frame) : Decidable (Outgrows limits r f) :=
  decidable_of_iff (f.header.messageLength.toNat ≤ limits.messageSize.toNat ∧ f.header.index = 0 ∧
    r.get? f.key = none ∧ f.header.total ≠ 1 ∧ 2^64 ≤ f.header.total.toNat*limits.framePayload.toNat)
    ⟨fun ⟨hsize,hindex,hfree,hseveral,hcap⟩ => ⟨hsize,hindex,hfree,hseveral,hcap⟩,
      fun h => ⟨h.size,h.index,h.free,h.several,h.capacity⟩⟩

theorem pushFirstIn_checked (limits : Limits) (r : Reassembler) (f : Frame) :
    pushFirstIn Checked limits r f =
      if r.get? f.key = none ∧ f.header.total ≠ 1 ∧
          2^64 ≤ f.header.total.toNat*limits.framePayload.toNat then .error .overflow
      else .ok (pushFirst limits r f) := by
  have hkey : r.get? (f.header.counter,f.header.isResponse) = r.get? f.key := rfl
  rw [pushFirst_eq]
  simp only [pushFirstIn,hkey,Checked.pure_eq]
  cases hget : r.get? f.key with
  | some p => simp
  | none =>
    by_cases htotal : f.header.total = 1
    · by_cases hwhole : f.payload.length = f.header.messageLength.toNat <;> simp [htotal,hwhole]
    · have hword : f.header.total.toUInt64.toNat = f.header.total.toNat := UInt16.toNat_toUInt64 _
      by_cases hcap : 2^64 ≤ f.header.total.toNat*limits.framePayload.toNat
      · have hstops : (none : Option Partial) = none ∧ f.header.total ≠ 1 ∧
            2^64 ≤ f.header.total.toNat*limits.framePayload.toNat := ⟨rfl,htotal,hcap⟩
        rw [Checked.mul_of_le (by rwa [hword]),if_pos hstops]
        simp only [htotal,Checked.error_bind,Option.isSome_none,Bool.false_eq_true,if_false]
      · rw [Checked.mul_of_lt (by rw [hword]; exact Nat.not_le.mp hcap)]
        simp only [htotal,hcap,Checked.ok_bind,Option.isSome_none,Bool.false_eq_true,if_false,and_false]
        split
        · rfl
        · split <;> rfl

theorem pushIn_checked (limits : Limits) (r : Reassembler) (f : Frame) :
    r.pushIn Checked limits f =
      if Outgrows limits r f then .error .overflow else .ok (r.push limits f) := by
  rw [push_eq]
  simp only [pushIn,Checked.pure_eq,pushFirstIn_checked]
  by_cases hsize : limits.messageSize.toNat < f.header.messageLength.toNat
  · rw [if_pos hsize,if_pos hsize,if_neg fun h => absurd h.size (Nat.not_le.mpr hsize)]
  · rw [if_neg hsize,if_neg hsize]
    by_cases hindex : f.header.index = 0
    · rw [if_pos hindex,if_pos hindex]
      refine if_congr ⟨?_,fun h => ⟨h.free,h.several,h.capacity⟩⟩ rfl rfl
      exact fun ⟨hfree,hseveral,hcap⟩ => ⟨Nat.not_lt.mp hsize,hindex,hfree,hseveral,hcap⟩
    · rw [if_neg hindex,if_neg hindex,if_neg fun h => hindex h.index]

theorem key_of_advance {f : Frame} {held : Option Partial} {m : Message}
    (h : (advance f held).2 = some m) : m.key = f.key := by
  cases held with
  | none =>
    simp only [advance] at h
    split at h
    · rw [← Option.some.inj h]
      rfl
    · simp at h
  | some p =>
    simp only [advance] at h
    split at h
    · rw [← Option.some.inj h]
      rfl
    · simp at h

/-! ### Frames of one key -/

/-- What becomes of the message under a key with some frames, and the messages that they end. -/
def track : Option Partial → List Frame → Option Partial × List Message
  | held,[] => (held,[])
  | held,f :: fs =>
    ((track (advance f held).1 fs).1,(advance f held).2.toList ++ (track (advance f held).1 fs).2)

def Permitted (limits : Limits) : Option Partial → List Frame → Prop
  | _,[] => True
  | held,f :: fs => Permits limits f held ∧ Permitted limits (advance f held).1 fs

theorem track_append (held : Option Partial) (fs fs' : List Frame) :
    track held (fs ++ fs') =
      ((track (track held fs).1 fs').1,(track held fs).2 ++ (track (track held fs).1 fs').2) := by
  induction fs generalizing held with
  | nil => simp [track]
  | cons f fs ih => simp [track,ih,List.append_assoc]

theorem permitted_append (limits : Limits) (held : Option Partial) (fs fs' : List Frame) :
    Permitted limits held (fs ++ fs') ↔
      Permitted limits held fs ∧ Permitted limits (track held fs).1 fs' := by
  induction fs generalizing held with
  | nil => simp [Permitted,track]
  | cons f fs ih => simp [Permitted,track,ih,and_assoc]

/-! ### Frames of all keys -/

/-- Frames pushed one after the other, and the messages they give; none if one of them is refused. -/
def run (limits : Limits) (r : Reassembler) : List Frame → Option (Reassembler × List Message)
  | [] => some (r,[])
  | f :: fs =>
    match r.push limits f with
    | (r',.ok out) => (run limits r' fs).map fun (r',ms) => (r',out.toList ++ ms)
    | (_,.error _) => none

theorem run_cons_eq_some_iff (limits : Limits) (r r' : Reassembler) (f : Frame) (fs : List Frame)
    (ms : List Message) :
    run limits r (f :: fs) = some (r',ms) ↔
      ∃ r₁ out ms', r.push limits f = (r₁,.ok out) ∧ run limits r₁ fs = some (r',ms') ∧
        ms = out.toList ++ ms' := by
  rw [run]
  rcases hp : r.push limits f with ⟨r₁,result⟩
  cases result with
  | error fault => simp
  | ok out =>
    simp only [Option.map_eq_some_iff]
    constructor
    · rintro ⟨⟨r₂,ms'⟩,hrun,he⟩
      obtain ⟨rfl,rfl⟩ := Prod.mk.inj he
      exact ⟨r₁,out,ms',rfl,hrun,rfl⟩
    · rintro ⟨r₂,out',ms',he,hrun,rfl⟩
      obtain ⟨rfl,hout⟩ := Prod.mk.inj he
      obtain rfl := Except.ok.inj hout
      exact ⟨(r',ms'),hrun,rfl⟩

theorem run_append_eq_some_iff (limits : Limits) (r r' : Reassembler) (fs fs' : List Frame)
    (ms : List Message) :
    run limits r (fs ++ fs') = some (r',ms) ↔
      ∃ r₁ ms₁ ms₂, run limits r fs = some (r₁,ms₁) ∧ run limits r₁ fs' = some (r',ms₂) ∧
        ms = ms₁ ++ ms₂ := by
  induction fs generalizing r ms with
  | nil => simp [run]
  | cons f fs ih =>
    simp only [List.cons_append,run_cons_eq_some_iff,ih]
    constructor
    · rintro ⟨r₁,out,ms',hpush,⟨r₂,ms₁,ms₂,hrun,hrun',rfl⟩,rfl⟩
      exact ⟨r₂,out.toList ++ ms₁,ms₂,⟨r₁,out,ms₁,hpush,hrun,rfl⟩,hrun',by simp⟩
    · rintro ⟨r₂,ms₁,ms₂,⟨r₁,out,ms',hpush,hrun,rfl⟩,hrun',rfl⟩
      exact ⟨r₁,out,ms' ++ ms₂,hpush,⟨r₂,ms',ms₂,hrun,hrun',rfl⟩,by simp⟩

def runChecked (limits : Limits) (r : Reassembler) :
    List Frame → Checked (Option (Reassembler × List Message))
  | [] => pure (some (r,[]))
  | f :: fs => do
    match ← r.pushIn Checked limits f with
    | (r',.ok out) => return (← runChecked limits r' fs).map fun (r',ms) => (r',out.toList ++ ms)
    | (_,.error _) => return none

theorem runChecked_cons (limits : Limits) (r : Reassembler) (f : Frame) (fs : List Frame) :
    runChecked limits r (f :: fs) =
      if Outgrows limits r f then .error .overflow
      else match r.push limits f with
        | (r',.ok out) => (runChecked limits r' fs).map (·.map fun (r',ms) => (r',out.toList ++ ms))
        | (_,.error _) => .ok none := by
  rw [runChecked,pushIn_checked]
  split
  · rfl
  · rcases r.push limits f with ⟨r',out | out⟩
    · rfl
    · cases runChecked limits r' fs <;> rfl

theorem runChecked_eq_ok {limits : Limits} {r : Reassembler} {fs : List Frame}
    (h : ∀ before f after r₁ ms, fs = before ++ f :: after → run limits r before = some (r₁,ms) →
      ¬ Outgrows limits r₁ f) : runChecked limits r fs = .ok (run limits r fs) := by
  induction fs generalizing r with
  | nil => rfl
  | cons f fs ih =>
    rw [runChecked_cons,if_neg (h [] f fs r [] rfl rfl),run]
    rcases hpush : r.push limits f with ⟨r',fault | out⟩
    · rfl
    · refine congrArg (Except.map _) (ih fun before g after r₁ ms hfs hrun => ?_)
      exact h (f :: before) g after r₁ _ (by rw [hfs,List.cons_append])
        ((run_cons_eq_some_iff limits r r₁ f before _).mpr ⟨r',out,ms,hpush,hrun,rfl⟩)

theorem runChecked_eq_error {limits : Limits} {r r₁ : Reassembler} {before after : List Frame}
    {f : Frame} {ms : List Message} (hrun : run limits r before = some (r₁,ms))
    (hf : Outgrows limits r₁ f) : runChecked limits r (before ++ f :: after) = .error .overflow := by
  induction before generalizing r ms with
  | nil =>
    obtain ⟨rfl,-⟩ := Prod.mk.inj (Option.some.inj hrun)
    rw [List.nil_append,runChecked_cons,if_pos hf]
  | cons g before ih =>
    obtain ⟨r₂,out,ms',hpush,hrest,-⟩ := (run_cons_eq_some_iff limits r r₁ g before ms).mp hrun
    rw [List.cons_append,runChecked_cons,hpush]
    split
    · rfl
    · exact congrArg (Except.map _) (ih hrest)

theorem runChecked_of_run {limits : Limits} {r r' : Reassembler} {fs : List Frame} {ms : List Message}
    (h : run limits r fs = some (r',ms)) :
    runChecked limits r fs = .ok (some (r',ms)) ∨ runChecked limits r fs = .error .overflow := by
  by_cases hstop : ∃ before f after r₁ ms, fs = before ++ f :: after ∧
      run limits r before = some (r₁,ms) ∧ Outgrows limits r₁ f
  · obtain ⟨before,f,after,r₁,ms,rfl,hrun,hf⟩ := hstop
    exact .inr (runChecked_eq_error hrun hf)
  · rw [runChecked_eq_ok fun before f after r₁ ms hfs hrun hf =>
      hstop ⟨before,f,after,r₁,ms,hfs,hrun,hf⟩,h]
    exact .inl rfl

/-- Each key sees its own frames only: its partial message and its messages are what those give. -/
theorem track_of_run (limits : Limits) {r r' : Reassembler} {fs : List Frame} {ms : List Message}
    (h : run limits r fs = some (r',ms)) (key : ChunkKey) :
    track (r.get? key) (fs.filter (·.key == key)) = (r'.get? key,ms.filter (·.key == key)) := by
  induction fs generalizing r ms with
  | nil =>
    simp only [run,Option.some.injEq,Prod.mk.injEq] at h
    obtain ⟨rfl,rfl⟩ := h
    rfl
  | cons f fs ih =>
    obtain ⟨r₁,out,ms₁,hpush,hrun,rfl⟩ := (run_cons_eq_some_iff limits r r' f fs ms).mp h
    obtain ⟨-,-,rfl,rfl⟩ := (push_ok_iff limits r r₁ f out).mp hpush
    have hrest := ih hrun
    by_cases hk : f.key = key
    · subst hk
      rw [get?_put_self] at hrest
      have hout : (advance f (r.get? f.key)).2.toList.filter (·.key == f.key) =
          (advance f (r.get? f.key)).2.toList := by
        rw [List.filter_eq_self]
        intro m hm
        simpa using key_of_advance (Option.mem_toList.mp hm)
      simp [track,hrest,List.filter_append,hout]
    · have hout : (advance f (r.get? f.key)).2.toList.filter (·.key == key) = [] := by
        rw [List.filter_eq_nil_iff]
        intro m hm
        rw [key_of_advance (Option.mem_toList.mp hm)]
        simpa using hk
      rw [get?_put_of_ne r (Ne.symm hk)] at hrest
      simpa [hk,List.filter_append,hout] using hrest

theorem run_of_permitted (limits : Limits) (r : Reassembler) (key : ChunkKey) (fs : List Frame)
    (held : Option Partial) (hget : r.get? key = none)
    (hroom : r.inProgress < limits.partialMessages.toNat) (hkey : ∀ f ∈ fs, f.key = key)
    (hp : Permitted limits held fs) :
    run limits (r.put key held) fs = some (r.put key (track held fs).1,(track held fs).2) := by
  induction fs generalizing held with
  | nil => rfl
  | cons f fs ih =>
    simp only [List.mem_cons,forall_eq_or_imp] at hkey
    obtain ⟨rfl,hkeys⟩ := hkey
    have hr : HasRoom limits (r.put f.key held) f := by
      intro hn _
      rw [get?_put_self] at hn
      rwa [hn,put_none_of_get?_none hget]
    have hpush := (push_ok_iff limits (r.put f.key held) (r.put f.key (advance f held).1) f
      (advance f held).2).mpr ⟨by simpa using hp.1,hr,by simp,by simp⟩
    exact (run_cons_eq_some_iff limits _ _ f fs _).mpr ⟨_,_,_,hpush,ih _ hkeys hp.2,rfl⟩

end Reassembler
end Tether
