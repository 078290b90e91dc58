/-! Counters of what went over one or several connections. They are machine words and wrap, but for
the number of open connections, which stops at zero. -/
namespace Tether

structure Traffic where
  requestsSent : UInt64 := 0
  requestsReceived : UInt64 := 0
  responsesSent : UInt64 := 0
  responsesReceived : UInt64 := 0
  framesSent : UInt64 := 0
  framesReceived : UInt64 := 0
  bytesSent : UInt64 := 0
  bytesReceived : UInt64 := 0
  errors : UInt64 := 0
  applicationErrors : UInt64 := 0
  timeouts : UInt64 := 0
  keepaliveFailures : UInt64 := 0
  connectionsOpened : UInt64 := 0
  connectionsClosed : UInt64 := 0
  activeConnections : UInt32 := 0
  reconnects : UInt64 := 0
deriving DecidableEq, Repr, Inhabited

inductive TrafficEvent
  | requestSent
  | requestReceived
  | responseSent
  | responseReceived
  | framesSent (frames bytes : Nat)
  | framesReceived (frames bytes : Nat)
  | error
  | applicationError
  | timeout
  | keepaliveFailure
  | opened
  | closed
  | reconnect
deriving DecidableEq, Repr

namespace Traffic

def count (t : Traffic) : TrafficEvent → Traffic
  | .requestSent => { t with requestsSent := t.requestsSent + 1 }
  | .requestReceived => { t with requestsReceived := t.requestsReceived + 1 }
  | .responseSent => { t with responsesSent := t.responsesSent + 1 }
  | .responseReceived => { t with responsesReceived := t.responsesReceived + 1 }
  | .framesSent frames bytes =>
    { t with framesSent := t.framesSent + .ofNat frames, bytesSent := t.bytesSent + .ofNat bytes }
  | .framesReceived frames bytes =>
    { t with
      framesReceived := t.framesReceived + .ofNat frames
      bytesReceived := t.bytesReceived + .ofNat bytes }
  | .error => { t with errors := t.errors + 1 }
  | .applicationError => { t with applicationErrors := t.applicationErrors + 1 }
  | .timeout => { t with timeouts := t.timeouts + 1 }
  | .keepaliveFailure => { t with keepaliveFailures := t.keepaliveFailures + 1 }
  | .opened =>
    { t with
      connectionsOpened := t.connectionsOpened + 1
      activeConnections := t.activeConnections + 1 }
  | .closed =>
    { t with
      connectionsClosed := t.connectionsClosed + 1
      activeConnections := t.activeConnections - min 1 t.activeConnections }
  | .reconnect => { t with reconnects := t.reconnects + 1 }

def snapshot (t : Traffic) : List (String × Nat) :=
  [("requests_sent",t.requestsSent.toNat),("requests_received",t.requestsReceived.toNat),
   ("responses_sent",t.responsesSent.toNat),("responses_received",t.responsesReceived.toNat),
   ("frames_sent",t.framesSent.toNat),("frames_received",t.framesReceived.toNat),
   ("bytes_sent",t.bytesSent.toNat),("bytes_received",t.bytesReceived.toNat),
   ("errors_total",t.errors.toNat),("application_errors",t.applicationErrors.toNat),
   ("timeouts_total",t.timeouts.toNat),("keepalive_failures",t.keepaliveFailures.toNat),
   ("connections_opened",t.connectionsOpened.toNat),
   ("connections_closed",t.connectionsClosed.toNat),
   ("active_connections",t.activeConnections.toNat),("reconnects_total",t.reconnects.toNat)]

def countAll (t : Traffic) (events : List TrafficEvent) : Traffic := events.foldl count t

end Traffic
end Tether
