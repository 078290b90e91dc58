import Tether.Node.Settings

/-! What files may set. Every setting has a name and a slot, which says what its value may be and what
the value changes; a setting that a file leaves out keeps its default. -/
namespace Tether.Node

inductive Slot
  | text (put : String → Settings → Settings)
  | maybeText (put : Option String → Settings → Settings)
  | texts (put : List String → Settings → Settings)
  | natural (bound : Nat) (put : Nat → Settings → Settings)
  | choice (options : List (String × (Settings → Settings)))
  | tls (put : Option TlsPaths → Settings → Settings)

namespace Slot

def longWord (put : UInt64 → Settings → Settings) : Slot := .natural UInt64.size fun n => put (.ofNat n)

def word (put : UInt32 → Settings → Settings) : Slot := .natural UInt32.size fun n => put (.ofNat n)

def role : Slot :=
  .choice ([NodeRole.master,.worker].map fun r => (r.name,fun s => { s with role := r }))

def pacing : Slot :=
  .choice ([Pacing.fixed,.exponential].map fun p => (p.name,fun s => { s with pacing := p }))

/-- All settings, in the order that a list of bare values has. -/
def all : List (String × Slot) :=
  [("name",.text fun v s => { s with name := v }),
   ("node_type",role),
   ("masters",.texts fun v s => { s with masters := v }),
   ("port",.natural UInt16.size fun n s => { s with port := .ofNat n }),
   ("bind_addr",.text fun v s => { s with bindAddress := v }),
   ("key",.maybeText fun v s => { s with key := v }),
   ("tls",.tls fun v s => { s with tls := v }),
   ("chunk_size",longWord fun v s => { s with chunkSize := v }),
   ("keepalive_interval_secs",longWord fun v s => { s with keepaliveInterval := v }),
   ("keepalive_timeout_secs",longWord fun v s => { s with keepaliveTimeout := v }),
   ("keepalive_max_missed",word fun v s => { s with keepaliveMaxMissed := v }),
   ("reconnect_delay_secs",longWord fun v s => { s with reconnectDelay := v }),
   ("reconnect_strategy",pacing),
   ("max_reconnect_delay_secs",longWord fun v s => { s with reconnectMax := v }),
   ("client_keepalive_timeout_secs",longWord fun v s => { s with clientTimeout := v }),
   ("client_check_interval_secs",longWord fun v s => { s with checkInterval := v }),
   ("receive_dir",.maybeText fun v s => { s with receiveDirectory := v }),
   ("batch_max_elements",longWord fun v s => { s with batchElements := v }),
   ("batch_max_size",longWord fun v s => { s with batchSize := v }),
   ("batch_max_time_ms",longWord fun v s => { s with batchWait := v })]

end Slot
end Tether.Node
