import Tether.Node.Start

/-! The command line of a node. It reads the files that the start of a node asks for, and shows the
refusal, or where the node is ready to serve. -/
namespace Tether.CommandLine
open Node

def faultOf : IO.Error → IoFault
  | .noFileOrDirectory .. => .notFound
  | .inappropriateType _ code _ => if code = 21 then .isDirectory else .notDirectory
  | fault => .described (toString fault)

def tryPath (path : String) : IO (String × Except IoFault (List UInt8)) := do
  try
    let content ← IO.FS.readBinFile path
    return (path,.ok content.toList)
  catch fault => return (path,.error (faultOf fault))

/-- The paths of PEM files, as far as the settings can be read. -/
def pemPaths (files : FileView) (config : String) : List String :=
  match Settings.loadOrDefault files config with
  | .ok { tls := some p, .. } => p.ca :: p.cert.toList ++ p.key.toList
  | _ => []

def usage : String :=
  "Usage: tether [--config PATH] [--log-format text|json] master [--bind HOST:PORT]\n" ++
  "       tether [--config PATH] [--log-format text|json] worker [--name NAME] [--master HOST:PORT]\n" ++
  "              [--performance-test BYTES | --concurrency-test REQUESTS | --send-file PATH |\n" ++
  "               --send-string BYTES] [--iterations N] [--batch-events EVENTS]"

def run (i : Invocation) : IO UInt32 := do
  let config ← tryPath i.config
  let pems ← (pemPaths (.ofTried [config]) i.config).mapM tryPath
  match start (.ofTried (config :: pems)) i with
  | .error refusal =>
    IO.eprint refusal.report
    return 1
  | .ok (.master m) =>
    IO.println s!"{m.name} is ready to accept workers on {m.listenAddress}"
    return 0
  | .ok (.worker w _) =>
    IO.println s!"{w.name} is ready to dial {w.masterAddress}"
    return 0

def execute (words : List String) : IO UInt32 := do
  match Invocation.parse words (← IO.getEnv "NODELINK_CONFIG") with
  | .ok i => run i
  | .error .help =>
    IO.println usage
    return 0
  | .error _ =>
    IO.eprintln usage
    return 2

end Tether.CommandLine

def main (words : List String) : IO UInt32 := Tether.CommandLine.execute words
