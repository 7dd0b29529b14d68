import DevEnv.Host
import DevEnv.Runtime.Call

/-! The operations on environments and images that every control plane offers.
Nothing is remembered between operations; each one asks the control plane again. -/
namespace DevEnv

/-- The operations on one control plane. Those that change nothing when there is nothing to do say so by no name. -/
structure Engine (I : Interface) where
  runner : Runner
  isPresent : String → Action I Bool
  isRunning : String → Action I Bool
  /-- Removes an environment if it exists; a live one only by force. -/
  clean : String → (forced : Bool) → Action I Unit
  start : Options → Action I Started
  awaitRunning : String → Span → Action I Unit
  pause : String → Action I (Option String)
  resume : String → Action I (Option String)
  destroy : String → Action I (Option String)
  hasGpu : Action I Bool
  info : Action I Runtime.Info
  environments : Action I (List Environment)
  environment : String → Action I Environment
  images : Action I (List Image)
  image : String → Action I Image
  /-- The build graph of an image, if it was recorded. -/
  imageGraph : String → Action I (Option Graph)
  imageDependency : String → Action I Dependency
  dependency : String → Action I Dependency
  ports : String → Action I (List PortBinding)

/-- How an engine waits for environments. -/
structure Engine.Patience where
  interval : Span
  /-- The most steps of one wait. -/
  steps : Nat
  deriving Repr

end DevEnv
