import DevEnv.Docker.Client
import DevEnv.File
import DevEnv.Host
import DevEnv.Remote.Client
import DevEnv.Runtime.Memory

/-! Everything a run of the command line asks of the machine: its host, its files,
the docker command and the servers it reaches. -/
namespace DevEnv.World

inductive Query where
  | host (q : Host.Query)
  | command (c : Docker.Command)
  | exchange (r : Remote.Request)
  /-- The contents of a file. -/
  | read (path : String)
  /-- The absolute path of something that exists, without links. -/
  | resolve (path : String)

abbrev Query.Answer : Query → Type
  | host q => q.Answer
  | command _ => Except Docker.Command.Failure Docker.Command.Output
  | exchange _ => Remote.Response
  | read _ => File.Contents
  | resolve _ => Except String String

def interface : Interface := ⟨Query, Query.Answer⟩

def ask (q : Query) : Program interface q.Answer := Program.query (I := interface) q

/-- Runs of the docker command on this machine. -/
def ofDocker {α : Type} (p : Program Docker.interface α) : Program interface α := p.interpret fun c => ask (.command c)

/-- Asks the machine for its host's part of a question, and hands on the other part. -/
def beside {I : Interface} (f : (q : I.Query) → Program interface (I.Answer q)) :
    (q : (Host.interface.sum I).Query) → Program interface ((Host.interface.sum I).Answer q)
  | .inl q => ask (.host q)
  | .inr q => f q

/-- An action on a container runtime, by way of the docker command. -/
def viaDocker {α : Type} (binary : String) (act : Action Runtime.interface α) : Program interface (Except Error α) :=
  act.run.interpret (beside fun c => ofDocker (Docker.call binary c).run)

/-- Asks the machine for its host's part of a question; calls are answered from memory. -/
def besideMemory : (q : (Host.interface.sum Runtime.interface).Query) → Runtime.Memory →
    Program interface ((Host.interface.sum Runtime.interface).Answer q × Runtime.Memory)
  | .inl q, m => (ask (.host q)).bind fun r => .done (r, m)
  | .inr c, m => .done (Runtime.Memory.answer c m)

/-- An action on a container runtime in memory, which is empty at first. -/
def viaMemory {α : Type} (act : Action Runtime.interface α) : Program interface (Except Error α) :=
  (act.run.interpretWith besideMemory {}).bind fun r => .done r.1

/-- An action on a server, by exchanges with it. -/
def viaServer {α : Type} (act : Action Remote.interface α) : Program interface (Except Error α) :=
  act.run.interpret (beside fun r => ask (.exchange r))

end DevEnv.World
