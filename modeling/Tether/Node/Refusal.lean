import Tether.Error
import Tether.Json.Reader
import Tether.Toml.Value

/-! Why a node does not start. Most causes have one text; some name what was tried, with the reason
behind it. -/
namespace Tether.Node

inductive PortFault
  | empty
  | digit
  | range
deriving DecidableEq, Repr

def PortFault.message : PortFault → String
  | .empty => "cannot parse integer from empty string"
  | .digit => "invalid digit found in string"
  | .range => "number too large to fit in target type"

inductive Refusal
  | unreadable (fault : IoFault)
  | toml (fault : Toml.Fault)
  | json (fault : Json.Fault)
  | fileKind (ending : String)
  | emptyName
  | workerAlone
  | secret (fault : ConfigFault)
  | limits (fault : ConfigFault)
  | noProbes
  | noMaster
  | tls (reason : String)
  | noPort (address : String)
  | port (fault : PortFault)
  | binding (address : String) (error : LinkError)
deriving DecidableEq, Repr

namespace Refusal

def message : Refusal → String
  | .unreadable fault => fault.message
  | .toml .malformed => "TOML parse error"
  | .toml .redefined => "TOML parse error: a key is defined twice"
  | .toml .mismatched => "TOML parse error: a setting has a value of another kind"
  | .json .malformed => "JSON parse error"
  | .json .unfinished => "JSON parse error: the text ends too early"
  | .json .mismatched => "JSON parse error: a setting has a value of another kind"
  | .fileKind ending => s!"Unsupported config file extension: {ending}"
  | .emptyName => "name must not be empty"
  | .workerAlone => "a worker needs at least one master address"
  | .secret _ => "invalid cluster key"
  | .limits fault => (LinkError.config fault).message
  | .noProbes => "keepalive_max_missed must be at least 1"
  | .noMaster => "no master configured"
  | .tls reason => (LinkError.tls reason).message
  | .noPort address => s!"expected host:port, got {address}"
  | .port fault => fault.message
  | .binding address _ => s!"binding {address}"

def reason? : Refusal → Option String
  | .secret fault => some (LinkError.config fault).message
  | .binding _ error => some error.message
  | _ => none

def chain (r : Refusal) : String := ": ".intercalate (r.message :: r.reason?.toList)

def report (r : Refusal) : String :=
  s!"Error: {r.message}\n" ++ match r.reason? with
    | some reason => s!"\nCaused by:\n    {reason}\n"
    | none => ""

end Refusal
end Tether.Node
