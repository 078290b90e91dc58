import Tether.Node.Slot
import Tether.Toml.Reader

/-! Settings in TOML. The paths of PEM files stand in a table, or in an array in their order. -/
namespace Tether.Toml

def Value.text? : Value → Option String
  | .text s => some s
  | _ => none

def Value.isEmpty : Value → Bool
  | .array items => items.isEmpty
  | .table _ fields => fields.isEmpty
  | .tables elements => elements.isEmpty
  | _ => false

/-- The field of a table, or what stands for a missing one. -/
def fieldOr {α : Type} (fields : Fields) (key : String) (missing : Option α) (f : Value → Option α) :
    Option α :=
  match fields.lookup key with
  | some v => f v
  | none => missing

def Value.flag? : Value → Option Bool
  | .flag b => some b
  | _ => none

end Tether.Toml

namespace Tether.Node
open Toml

def TlsPaths.ofToml? : Value → Option TlsPaths
  | .table _ fields => do
    some { ca := ← fieldOr fields "ca_cert" none Value.text?
           cert := ← fieldOr fields "cert" (some none) fun v => v.text?.map some
           key := ← fieldOr fields "key" (some none) fun v => v.text?.map some
           clientAuth := ← fieldOr fields "require_client_auth" (some false) Value.flag? }
  | .array (ca :: cert :: key :: more) => do
    some { ca := ← ca.text?
           cert := some (← cert.text?)
           key := some (← key.text?)
           clientAuth := ← (more.head?.map Value.flag?).getD (some false) }
  | _ => none

/-- The settings with a slot's value; none for a value of another kind. -/
def Slot.ofToml? (slot : Slot) (s : Settings) (v : Value) : Option Settings :=
  match slot, v with
  | .text put, .text t => some (put t s)
  | .maybeText put, .text t => some (put (some t) s)
  | .texts put, .array items => (items.mapM Value.text?).map fun ts => put ts s
  | .natural bound put, .whole n =>
    if 0 ≤ n ∧ n.toNat < bound then some (put n.toNat s) else none
  | .choice options, .text name => (options.lookup name).map fun change => change s
  | .choice options, .table _ [(name,held)] =>
    if held.isEmpty then (options.lookup name).map fun change => change s else none
  | .tls put, v => (TlsPaths.ofToml? v).map fun p => put (some p) s
  | _, _ => none

def Settings.ofToml (text : String) : Except Fault Settings := do
  (← Toml.parse text).foldlM (fun s (key,v) =>
    match Slot.all.lookup key with
    | none => .ok s
    | some slot => match slot.ofToml? s v with
      | some s => .ok s
      | none => .error .mismatched) {}

end Tether.Node
