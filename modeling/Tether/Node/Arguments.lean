import Tether.Link.Diagnostics
import Tether.Node.Options

/-! The command line of a node: options for every node, then what the node shall be, with options of
its own. -/
namespace Tether.Node

inductive NodeCommand
  | master (bind : Option String)
  | worker (name master : Option String) (workload : Workload) (iterations : UInt32)
      (events : Option UInt32)
deriving DecidableEq, Repr

structure Invocation where
  config : String
  jsonLogs : Bool
  command : NodeCommand
deriving DecidableEq, Repr

namespace Invocation

def defaultConfig : String := "/etc/nodelink/node.toml"

def wordBound : Nat := UInt32.size
def longWordBound : Nat := UInt64.size

def commonSpecs : List OptionSpec :=
  [⟨"config",some 'c',.path⟩,⟨"log-format",none,.word ["text","json"]⟩]

def masterSpecs : List OptionSpec := [⟨"bind",some 'b',.text⟩]

def workloadSpecs : List OptionSpec :=
  [⟨"performance-test",none,.unsigned longWordBound⟩,⟨"concurrency-test",none,.signed wordBound⟩,
   ⟨"send-file",none,.path⟩,⟨"send-string",none,.unsigned longWordBound⟩]

def workerSpecs : List OptionSpec :=
  [⟨"name",some 'n',.text⟩,⟨"master",some 'm',.text⟩] ++ workloadSpecs
    ++ [⟨"iterations",none,.signed wordBound⟩,⟨"batch-events",none,.signed wordBound⟩]

def commands : List String := ["master","worker","help"]

def defaultIterations : UInt32 := 100

/-- All options of a command, which takes no other words. -/
def options (specs : List OptionSpec) (words : List String) : Except UsageFault Options := do
  let (o,_) ← Options.scan specs [] {} words
  o.settle

def workload (o : Options) (iterations : UInt32) : Workload :=
  match o.number? "performance-test", o.number? "concurrency-test", o.text? "send-file",
    o.number? "send-string" with
  | some size, _, _, _ => .performance size iterations
  | _, some n, _, _ => .concurrency (.ofNat n)
  | _, _, some path, _ => .sendFile path
  | _, _, _, some size => .sendString size
  | _, _, _, _ => .idle

def master (words : List String) : Except UsageFault NodeCommand := do
  let o ← options masterSpecs words
  .ok (.master (o.text? "bind"))

def worker (words : List String) : Except UsageFault NodeCommand := do
  let o ← options workerSpecs words
  if 1 < (workloadSpecs.filter fun spec => o.has spec.long).length then .error .conflict
  let iterations := ((o.number? "iterations").map UInt32.ofNat).getD defaultIterations
  .ok (.worker (o.text? "name") (o.text? "master") (workload o iterations) iterations
    ((o.number? "batch-events").map UInt32.ofNat))

/-- Help is on the node, or on one command of it. -/
def help : List String → UsageFault
  | [] => .help
  | [word] => if commands.contains word then .help else .unknownCommand
  | _ => .unknownCommand

def commandOf (name : String) (words : List String) : Except UsageFault NodeCommand :=
  if name = "master" then master words
  else if name = "worker" then worker words
  else .error (help words)

/-- The path of the settings, which the environment may name where no option does. -/
def configIn (o : Options) (env : Option String) : Except UsageFault Options :=
  match env with
  | some path => if o.has "config" then .ok o else o.accept ⟨"config",some 'c',.path⟩ path
  | none => .ok o

/-- A command and its options are judged before the last option in front of it. -/
def parse (words : List String) (env : Option String) : Except UsageFault Invocation := do
  let (o,rest) ← Options.scan commonSpecs commands {} words
  let chosen ← match rest with
    | some (name,words) => (commandOf name words).map some
    | none => .ok none
  let o ← configIn (← o.settle) env
  match chosen with
  | some command =>
    .ok { config := (o.text? "config").getD defaultConfig
          jsonLogs := o.text? "log-format" = some "json", command }
  | none => .error (if o.found.isEmpty then .nothing else .noCommand)

end Invocation
end Tether.Node
