import Tether.Proofs.Link.Pending

/-! One end of a link under every order of what its tasks do to it. A call to close takes four steps, and
any other task may run between two of them; requests are started and given up, replies come in, and the
link changes its phase. What was handed to the waiting requests is kept as a record. -/
namespace Tether

/-- How far a call to close has come. One that finds a reason in place is late and does nothing more. -/
inductive CloseStage
  | called
  | recorded
  | halted
  | failed
  | finished
  | late
deriving DecidableEq, Repr

namespace CloseStage

def rank : CloseStage → Nat
  | .called | .late => 0
  | .recorded => 1
  | .halted => 2
  | .failed => 3
  | .finished => 4

end CloseStage

structure CloseCall where
  reason : String
  stage : CloseStage := .called
deriving DecidableEq, Repr

structure Session where
  link : Connection
  closes : List CloseCall := []
  /-- Requests that were started, and those of them that their owners have left. -/
  tickets : List Ticket := []
  released : List Nat := []
  /-- Replies that were looked up, and whatever was handed over to a request. -/
  replies : List Message := []
  delivered : List Delivery := []

theorem Connection.enter_cases (c : Connection) (phase : Phase) :
    (c.enter phase).1 = c ∨ (c.enter phase).1 = { c with phase } := by
  unfold enter
  split
  · exact .inl rfl
  · exact .inr rfl

namespace Session

inductive Act
  | close (reason : String)
  | proceed (call : Nat)
  | start (tag : Tag)
  | respond (reply : Message)
  | release (request : Nat)
  | ready (peer : String)
  | handshake

/-- Neither of the two acts that enter a phase of an open link. -/
def Act.Plain : Act → Prop
  | .ready _ | .handshake => False
  | _ => True

def mark (s : Session) (k : Nat) (call : CloseCall) (stage : CloseStage) : Session :=
  { s with closes := s.closes.set k { call with stage } }

def proceed (s : Session) (k : Nat) (call : CloseCall) : Session :=
  match call.stage with
  | .called =>
    match s.link.recordReason call.reason with
    | (link,true) => { s with link }.mark k call .recorded
    | (link,false) => { s with link }.mark k call .late
  | .recorded => { s with link := s.link.halt }.mark k call .halted
  | .halted =>
    { s with
      link := s.link.failPending call.reason
      delivered := s.delivered ++ (s.link.pending.failAll call.reason).2 }.mark k call .failed
  | .failed => { s with link := s.link.disconnect }.mark k call .finished
  | .finished | .late => s

def start (s : Session) (tag : Tag) : Session :=
  match s.link.startRequest tag with
  | .ok (link,ticket) => { s with link, tickets := s.tickets ++ [ticket] }
  | .error _ => s

def respond (s : Session) (reply : Message) : Session :=
  { s with
    link := (s.link.processResponse reply).1
    replies := s.replies ++ [reply]
    delivered := s.delivered ++
      (s.link.pending.resolve reply.counter (Connection.outcomeOf reply)).2.toList }

def release (s : Session) (k : Nat) : Session :=
  match s.tickets[k]? with
  | none => s
  | some ticket =>
    if k ∈ s.released then s
    else { s with link := s.link.release ticket, released := s.released ++ [k] }

def step (s : Session) : Act → Session
  | .close reason => { s with closes := s.closes ++ [{ reason }] }
  | .proceed k => match s.closes[k]? with
    | some call => s.proceed k call
    | none => s
  | .start tag => s.start tag
  | .respond reply => s.respond reply
  | .release k => s.release k
  | .ready peer => { s with link := s.link.markReady peer }
  | .handshake => { s with link := (s.link.enter .handshaking).1 }

def run (s : Session) (acts : List Act) : Session := acts.foldl step s

def deliveries (s : Session) (slot : Nat) : List Outcome :=
  (s.delivered.filter (·.slot == slot)).map (·.outcome)

def establish (name : String) (role : Role) (peerAddr : String) (counter : UInt32) : Session :=
  { link := Connection.establish name role peerAddr counter }

@[simp] theorem run_nil (s : Session) : s.run [] = s := rfl

@[simp] theorem run_cons (s : Session) (a : Act) (acts : List Act) :
    s.run (a :: acts) = (s.step a).run acts := rfl

theorem run_append (s : Session) (acts later : List Act) :
    s.run (acts ++ later) = (s.run acts).run later := List.foldl_append

theorem exists_proceed_eq (s : Session) (k : Nat) (call : CloseCall) :
    ∃ link closes delivered, s.proceed k call = { s with link,closes,delivered } := by
  rcases call with ⟨reason,stage⟩
  cases stage with
  | called =>
    simp only [proceed]
    rcases s.link.recordReason reason with ⟨link,first⟩
    cases first <;> exact ⟨_,_,_,rfl⟩
  | _ => exact ⟨_,_,_,rfl⟩

theorem exists_run_proceed_eq (s : Session) (k n : Nat) :
    ∃ link closes delivered, s.run (List.replicate n (.proceed k)) = { s with link,closes,delivered } := by
  induction n generalizing s with
  | zero => exact ⟨_,_,_,rfl⟩
  | succ n ih =>
    rw [List.replicate_succ,run_cons,step]
    cases s.closes[k]? with
    | none => exact ih s
    | some call =>
      obtain ⟨link,closes,delivered,hproceed⟩ := s.exists_proceed_eq k call
      obtain ⟨link',closes',delivered',hrun⟩ := ih (s.proceed k call)
      exact ⟨link',closes',delivered',hrun.trans (by rw [hproceed])⟩

theorem link_close (s : Session) (reason : String) :
    (s.run (.close reason :: List.replicate 4 (.proceed s.closes.length))).link =
      s.link.close reason := by
  cases hr : s.link.closeReason with
  | none =>
    simp [List.replicate,run,step,proceed,mark,Connection.close,Connection.recordReason,hr]
  | some r =>
    simp [List.replicate,run,step,proceed,mark,Connection.close,Connection.recordReason,hr]

end Session
end Tether
