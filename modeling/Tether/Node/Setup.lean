import Tether.Json.Printer
import Tether.Link.Diagnostics
import Tether.Node.Files
import Tether.Text.Quoted
import Tether.Wire.Tag

/-! What a master and a worker are made of before they meet anyone, and how they show in logs. -/
namespace Tether

/-- A fraction with so many places, without the zeros at its end. -/
def Span.places (n places : Nat) : String :=
  let fraction := (Nat.toDigits 10 (n % Nat.pow 10 places)).leftpad places '0'
  let fraction := (fraction.reverse.dropWhile (· = '0')).reverse
  toString (n / Nat.pow 10 places) ++ if fraction.isEmpty then "" else "." ++ String.ofList fraction

/-- A span in the largest unit of which it is at least one. -/
def Span.shown (s : Span) : String :=
  if 1000000000 ≤ s.nanos then places s.nanos 9 ++ "s"
  else if 1000000 ≤ s.nanos then places s.nanos 6 ++ "ms"
  else if 1000 ≤ s.nanos then places s.nanos 3 ++ "µs"
  else s!"{s.nanos}ns"

namespace Node

def shownRecord (name : String) (fields : List (String × String)) : String :=
  s!"{name} \x7b " ++ ", ".intercalate (fields.map fun (k,v) => s!"{k}: {v}") ++ " \x7d"

def shownLimit : Option UInt32 → String
  | none => "None"
  | some n => s!"Some({n})"

def shownPolicy : RetryPolicy → String
  | .fixed p => shownRecord "FixedDelay"
    [("delay",p.delay.shown),("max_attempts",shownLimit p.maxAttempts)]
  | .backoff p => shownRecord "ExponentialBackoff"
    [("initial",p.initial.shown),("max",p.max.shown),
     ("multiplier",String.ofList (Json.realChars p.multiplier)),("jitter",toString p.jitter),
     ("max_attempts",shownLimit p.maxAttempts)]

/-- How long a fresh connection may take to say hello. -/
def greetingLimit : Span := .ofSeconds 30

structure WorkerSetup where
  name : String
  masterAddress : String
  limits : Limits
  cipher : Option Cipher
  keepalive : KeepaliveSettings
  policy : RetryPolicy
  tls : Option TlsFiles
  workload : Workload

def WorkerSetup.of (files : FileView) (s : Settings) (workload : Workload) : Except Refusal WorkerSetup := do
  .ok { name := s.name, masterAddress := ← s.masterAddress, limits := s.limits, cipher := ← s.cipher
        keepalive := s.keepalive, policy := s.policy, tls := ← s.tlsFiles files, workload }

def WorkerSetup.shown (w : WorkerSetup) : String :=
  shownRecord "ClientManager"
    [("name",Quoted.quote w.name),("master_addr",Quoted.quote w.masterAddress),
     ("policy",shownPolicy w.policy),("connected","false")]

structure MasterSetup where
  name : String
  listenAddress : String
  limits : Limits
  cipher : Option Cipher
  clientTimeout : Span
  checkInterval : Span
  receiveDirectory : Option String
  tls : Option TlsFiles

def MasterSetup.of (files : FileView) (s : Settings) : Except Refusal MasterSetup := do
  .ok { name := s.name, listenAddress := s.listenAddress, limits := s.limits, cipher := ← s.cipher
        clientTimeout := .ofSeconds s.clientTimeout.toNat
        checkInterval := .ofSeconds s.checkInterval.toNat
        receiveDirectory := s.receiveDirectory, tls := ← s.tlsFiles files }

/-- The tags that a master answers, in the order of their text. -/
def MasterSetup.tags (m : MasterSetup) : List Tag :=
  [.batch,.echo,.echoClient] ++ (if m.receiveDirectory.isSome then [.file] else [])
    ++ [.hello,.string]

def MasterSetup.shown (m : MasterSetup) : String :=
  shownRecord "ServerManager"
    [("name",Quoted.quote m.name),("bind_addr",Quoted.quote m.listenAddress),
     ("registry",shownRecord "CommandRegistry" [("commands",Quoted.list (m.tags.map Tag.text))]),
     ("clients","0")]

end Node
end Tether
