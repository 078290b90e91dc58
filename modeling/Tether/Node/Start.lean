import Tether.Node.Arguments
import Tether.Node.Setup

/-! From the command line to a node that is ready to serve. Options of the command line win over the
settings of the file, and the rules are asked again of what comes out. -/
namespace Tether.Node

/-- A port in decimal digits, read up to the first fault. -/
def portFrom (n : Nat) : List Char → Except PortFault Nat
  | [] => .ok n
  | c :: rest =>
    if !c.isDigit then .error .digit
    else
      let n := n * 10 + (c.toNat - 48)
      if n < UInt16.size then portFrom n rest else .error .range

/-- A port may have a plus. -/
def readPort (text : List Char) : Except PortFault UInt16 := do
  let digits ← match text with
    | [] => .error .empty
    | ['+'] => .error .digit
    | '+' :: rest => .ok rest
    | digits => .ok digits
  .ok (.ofNat (← portFrom 0 digits))

/-- Host and port, which the last colon divides. -/
def splitAddress (address : String) : Except Refusal (String × UInt16) :=
  let port := (address.toList.reverse.takeWhile (· ≠ ':')).reverse
  if port.length = address.length then .error (.noPort address)
  else do
    let host := address.toList.take (address.length - port.length - 1)
    .ok (String.ofList host,← (readPort port).mapError .port)

inductive Start
  | master (setup : MasterSetup)
  | worker (setup : WorkerSetup) (events : Option UInt32)

def NodeCommand.apply (c : NodeCommand) (s : Settings) : Except Refusal Settings := do
  match c with
  | .master bind =>
    let s := { s with role := .master }
    match bind with
    | some address =>
      let (host,port) ← splitAddress address
      .ok { s with bindAddress := host, port }
    | none => .ok s
  | .worker name address .. =>
    let s := { s with role := .worker, name := name.getD s.name }
    match address with
    | some address =>
      let (host,port) ← splitAddress address
      .ok { s with masters := [host], port }
    | none => .ok s

/-- A master that cannot show a certificate does not get to listen. -/
def MasterSetup.checkIdentity (m : MasterSetup) : Except Refusal Unit :=
  match m.tls with
  | none => .ok ()
  | some files => (files.identity.mapError (.binding m.listenAddress)).map fun _ => ()

def start (files : FileView) (i : Invocation) : Except Refusal Start := do
  let s ← i.command.apply (← Settings.loadOrDefault files i.config)
  s.validate
  match i.command with
  | .master _ =>
    let m ← MasterSetup.of files s
    m.checkIdentity
    .ok (.master m)
  | .worker _ _ workload _ events => .ok (.worker (← WorkerSetup.of files s workload) events)

end Tether.Node
