import Tether.Link.Connection
import Tether.Text.Blank

/-! The master's side of a cluster: which of its links belong to which client. A client takes its name
with hello; a name is free while no connected link holds it, and a link holds at most one name. Links
are numbered, and the roster refers to them by number. -/
namespace Tether

/-- Links by number. -/
abbrev Links := List Connection

namespace Links

def connected (links : Links) (i : Nat) : Bool :=
  match links[i]? with
  | some c => c.isConnected
  | none => false

def update (links : Links) (i : Nat) (f : Connection → Connection) : Links := links.modify i f

def close (links : Links) (i : Nat) (reason : String) : Links := links.update i (·.close reason)

def closeAll (links : Links) (which : List Nat) (reason : String) : Links :=
  which.foldl (fun links i => links.close i reason) links

end Links

structure RosterEntry where
  name : String
  link : Nat
  /-- When the client was last heard of. -/
  heard : Nat
deriving DecidableEq, Repr, Inhabited

/-- The clients by name, and every link that was accepted and may still be up. -/
structure Roster where
  entries : List RosterEntry := []
  accepted : List Nat := []
deriving DecidableEq, Repr, Inhabited

namespace Roster

def find? (r : Roster) (name : String) : Option RosterEntry := r.entries.find? (·.name == name)

def link? (r : Roster) (name : String) : Option Nat := (r.find? name).map (·.link)

def erase (r : Roster) (name : String) : Roster :=
  { r with entries := r.entries.filter (·.name != name) }

def put (r : Roster) (entry : RosterEntry) : Roster :=
  { r with entries := entry :: (r.erase entry.name).entries }

/-- Keeps an accepted link, and lets go of those that are down. -/
def adopt (r : Roster) (links : Links) (link : Nat) : Roster :=
  { r with accepted := r.accepted.filter links.connected ++ [link] }

/-- Enters a link under a name and makes it ready. -/
def register (r : Roster) (links : Links) (link : Nat) (name : String) (now : Nat) :
    Except String (Roster × Links) :=
  match (links[link]?).bind (·.peerName) with
  | some current => .error s!"Error: connection already registered as {current}"
  | none =>
    if (r.link? name).any links.connected then .error s!"Error: client {name} already connected"
    else .ok (r.put ⟨name,link,now⟩,links.update link (·.markReady name))

/-- The name that hello carries, without blanks around it. -/
def helloName (payload : List UInt8) : String := Blank.trim (Utf8.lossy payload)

/-- Answers hello. The client that was entered, if one was, is told as well. -/
def hello (r : Roster) (links : Links) (master : String) (link : Nat) (payload : List UInt8)
    (now : Nat) : Roster × Links × Reply × Option String :=
  let name := helloName payload
  if name.isEmpty then (r,links,.error "Error: empty client name",none)
  else match r.register links link name now with
    | .error text => (r,links,.error text,none)
    | .ok (r,links) => (r,links,.okText master,some name)

def touch (r : Roster) (name : String) (now : Nat) : Roster :=
  { r with entries := r.entries.map fun e => if e.name == name then { e with heard := now } else e }

/-- A link has closed; its entry goes, unless the name belongs to another link by now. -/
def remove (r : Roster) (name : String) (link : Nat) : Roster :=
  if r.link? name = some link then r.erase name else r

/-- Takes out the clients unheard of for longer than `limit`, and closes their links. -/
def expire (r : Roster) (links : Links) (limit now : Nat) : Roster × Links × List RosterEntry :=
  let (stale,fresh) := r.entries.partition fun e => limit < now - e.heard
  ({ r with entries := fresh },links.closeAll (stale.map (·.link)) "keepalive timeout",stale)

/-- Empties the roster and closes every link it knew. -/
def stop (r : Roster) (links : Links) : Roster × Links :=
  ({},links.closeAll (r.entries.map (·.link) ++ r.accepted) "master shutting down")

/-- Clients by name, in the order of the names' characters. -/
def clients (r : Roster) : List RosterEntry := r.entries.mergeSort fun a b => a.name ≤ b.name

end Roster
end Tether
