import Tether.Node.JsonSettings
import Tether.Node.TomlSettings
import Tether.Pem.Section
import Tether.Transfer.Disk

/-! The files that a node reads before it starts: its settings, in the format that the file's ending
names, and the PEM files that the settings name. -/
namespace Tether.Node

/-- What reading each path gives. -/
abbrev FileView := String → Except IoFault (List UInt8)

namespace FileView

/-- The files of a tree, paths starting at its root. -/
def ofDisk (disk : Disk) : FileView := fun path =>
  if path.isEmpty then .error .notFound
  else match disk.read path.toList with
    | .ok (.file content) => .ok content
    | .ok .directory => .error .isDirectory
    | .error fault => .error fault

/-- Paths that were tried before, with what came of it. -/
def ofTried (tried : List (String × Except IoFault (List UInt8))) : FileView := fun path =>
  (tried.lookup path).getD (.error .notFound)

/-- A path may lead to something that cannot be read. -/
def leads (files : FileView) (path : String) : Bool :=
  match files path with
  | .ok _ | .error .isDirectory | .error (.described _) => true
  | .error _ => false

end FileView

/-- What follows the last dot of a file's name, unless the name has no other dot than its first
character. -/
def ending (path : String) : String :=
  match Path.fileName? path.toList with
  | none => ""
  | some name =>
    let tail := name.reverse.takeWhile (· ≠ '.')
    if name.length ≤ tail.length + 1 then "" else String.ofList tail.reverse

namespace Settings

/-- Settings from text in the format of an ending, whose letters may be large. -/
def parse (ending text : String) : Except Refusal Settings :=
  match ending.toLower with
  | "toml" => (ofToml text).mapError .toml
  | "json" => (ofJson text).mapError .json
  | _ => .error (.fileKind ending)

def load (files : FileView) (path : String) : Except Refusal Settings := do
  let content ← (files path).mapError .unreadable
  match Utf8.decode? content with
  | none => .error (.unreadable .invalidText)
  | some text =>
    let s ← parse (ending path) text
    s.validate
    .ok s

/-- Where no file is, all settings keep their defaults. -/
def loadOrDefault (files : FileView) (path : String) : Except Refusal Settings :=
  if files.leads path then load files path else .ok {}

end Settings

/-- The PEM files as they were read; a file that is not named is empty. -/
structure TlsFiles where
  ca : List UInt8
  cert : List UInt8 := []
  key : List UInt8 := []
  clientAuth : Bool := false
deriving DecidableEq, Repr

namespace TlsFiles

def readPem (files : FileView) (path : String) : Except Refusal (List UInt8) :=
  (files path).mapError fun fault => .tls s!"reading {path}: {fault.message}"

def read (files : FileView) (p : TlsPaths) : Except Refusal TlsFiles := do
  let ca ← readPem files p.ca
  let cert ← (p.cert.map (readPem files)).getD (.ok [])
  let key ← (p.key.map (readPem files)).getD (.ok [])
  .ok { ca, cert, key, clientAuth := p.clientAuth }

/-- A master must have certificates to show and a key to them. -/
def identity (f : TlsFiles) : Except LinkError (List (List UInt8) × List UInt8) := do
  let chain ← (Pem.certificates f.cert).mapError .tls
  let key ← (Pem.privateKey f.key).mapError .tls
  .ok (chain,key)

end TlsFiles

def Settings.tlsFiles (files : FileView) (s : Settings) : Except Refusal (Option TlsFiles) :=
  match s.tls with
  | none => .ok none
  | some p => (TlsFiles.read files p).map some

end Tether.Node
