import Tether.Cluster.Serving

/-! The reading side of a link at work. Everything at hand is read before a request of it is served,
so a faulty frame takes the requests in front of it down with the link. When reading ends, whatever is
still being served is given up, the link closes, and the stream ends. -/
namespace Tether.Cluster

structure Reading where
  link : Nat
  served : List Dispatch := []

namespace Reading

/-- One thing that was read. The reason to stop is given back. -/
def arrive (w : World) (r : Reading) : Arrival → World × Reading × Option String
  | .frame size => (w.countOn r.link [.framesReceived 1 size],r,none)
  | .fault e => (w.countOn r.link [.error],r,some e.message)
  | .message m =>
    if m.response then
      match w.links[r.link]? with
      | none => (w,r,none)
      | some c =>
        let (c,resolved) := c.processResponse m
        ((w.onLink r.link fun _ => c).countOn r.link (Connection.responseEvents m resolved),r,none)
    else
      let d : Dispatch := { link := r.link, counter := m.counter, tag := m.tag, payload := m.payload }
      (w.countOn r.link [.requestReceived],{ r with served := r.served ++ [d] },none)

def arriveAll (w : World) (r : Reading) : List Arrival → World × Reading × Option String
  | [] => (w,r,none)
  | a :: rest => match arrive w r a with
    | (w,r,some reason) => (w,r,some reason)
    | (w,r,none) => arriveAll w r rest

/-- Reads what is there, and the end if it has come. -/
def read (w : World) (r : Reading) (s : Stream) : World × Reading × Option String :=
  let (w,bytes,ended) := w.drain s.source
  let (inbound,arrivals) := if bytes.isEmpty then (s.inbound,[]) else s.inbound.read s.codec bytes
  let w := if bytes.isEmpty then w else w.onStream r.link fun s => { s with inbound }
  match arriveAll w r arrivals with
  | (w,r,some reason) => (w,r,some reason)
  | (w,r,none) =>
    if !ended then (w,r,none)
    else match inbound.ending with
      | .ok reason => (w,r,some reason)
      | .error e => (w.countOn r.link [.error],r,some e.message)

def answer (w : World) (d : Dispatch) (reply : Reply) : World :=
  match w.writeMessage d.link (reply.message d.counter) with
  | (w,.ok ()) => w.countOn d.link [.responseSent]
  | (w,.error _) => w

def serveAll (w : World) : List Dispatch → World × List Dispatch
  | [] => (w,[])
  | d :: rest => match d.run w with
    | (w,.waits d) =>
      let (w,rest) := serveAll w rest
      (w,d :: rest)
    | (w,.ends (.reply reply)) => serveAll (answer w d reply) rest
    | (w,.ends .crashed) => serveAll w rest

def finish (w : World) (r : Reading) (s : Stream) (reason : String) : World :=
  let w := r.served.foldl (fun w d => d.drop w) w
  let w := (w.closeLink r.link reason).onStream r.link fun s => { s with writable := false }
  (w.endPipe s.sink).count s.traffic [.closed]

def run (w : World) (r : Reading) : World × Option Reading :=
  match w.links[r.link]?, w.streams[r.link]? with
  | some c, some s =>
    if c.halted then (finish w r s (c.closeReason.getD "closed locally"),none)
    else match read w r s with
      | (w,r,some reason) => (finish w r s reason,none)
      | (w,r,none) =>
        let (w,served) := serveAll w r.served
        (w,some { r with served })
  | _, _ => (w,none)

def wakes (r : Reading) : List Nat := r.served.flatMap Dispatch.wakes

end Reading
end Tether.Cluster
