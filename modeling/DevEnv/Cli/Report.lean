import DevEnv.Error
import DevEnv.Text.Column
import DevEnv.Text.Magnitude
import DevEnv.View

/-! What the program prints about environments and images: tables for people, JSON for other programs. -/
namespace DevEnv.Cli

/-- Lines with their ends. -/
def textOf (lines : List String) : String := String.join (lines.map (· ++ "\n"))

/-- A value in JSON over several lines. -/
def jsonText (j : Json) : String := j.prettyText ++ "\n"

/-- A value that may be missing or empty; a dash stands for it. -/
def orDash (value : Option String) : String := (value.filter (· ≠ "")).getD "-"

/-- A text between codes that a terminal understands. -/
def styled (codes s : String) : String := codes ++ s ++ "\x1b[0m"

/-- A state in words, with a colour where colours are shown. -/
def statusText (coloured : Bool) (s : Status) : String :=
  if !coloured then s.name
  else match s with
    | .running => styled "\x1b[32m\x1b[1m" s.name
    | .paused => styled "\x1b[33m" s.name
    | .created | .restarting => styled "\x1b[36m" s.name
    | .exited | .dead => styled "\x1b[31m" s.name
    | .removing => styled "\x1b[2m" s.name
    | .notCreated => s.name

def yesOrNo (b : Bool) : String := if b then "true" else "false"

def portText (p : UInt16) : String := Text.ofNat p.toNat

def portWidths : List Nat := [12, 10, 8, 16]

def portTable (bindings : List PortBinding) : List String :=
  Text.row portWidths ["NAME", "PORT", "PROTO", "HOST_IP", "HOST_PORT"] ::
    bindings.map fun b => Text.row portWidths [b.name, portText b.port, b.protocol, b.hostIp, portText b.hostPort]

def environmentWidths : List Nat := [20, 10, 28, 6, 24]

def environmentTable (coloured : Bool) (es : List Environment) : List String :=
  if es.isEmpty then ["no environments found"]
  else Text.row environmentWidths ["NAME", "STATUS", "IMAGE", "SSH", "JUPYTER", "RSTUDIO"] ::
    es.map fun e => Text.row environmentWidths
      [e.name, statusText coloured e.status, e.image, portText e.sshPort, orDash e.jupyter, orDash e.rstudio]

def imageWidths : List Nat := [32, 14, 5, 8, 18]

def imageTable (is : List Image) : List String :=
  if is.isEmpty then ["no images found"]
  else Text.row imageWidths ["REFERENCE", "IMAGE_ID", "GPU", "CUDA", "CREATED", "SIZE"] ::
    is.map fun i => Text.row imageWidths
      [i.reference, i.id.short, yesOrNo i.manifest.gpu, orDash i.manifest.cuda,
        orDash (i.created.map Timestamp.renderMinute), Text.Magnitude.render i.size.toNat]

def packageWidths : List Nat := [6]

/-- The packages of all kinds, one to a line. -/
def packageLines (d : Dependency) : List String :=
  let lines (kind : String) (packages : List String) := packages.map fun p => Text.row packageWidths [kind, p]
  lines "apt" d.apt ++ lines "pypi" d.pypi ++ lines "r" d.r

def packageTable (name : String) (d : Dependency) : List String :=
  if d.isEmpty then [s!"no dependencies recorded for '{name}'"]
  else Text.row packageWidths ["KIND", "PACKAGE"] :: packageLines d

/-- All there is to tell about an environment. -/
structure Description where
  environment : Environment
  ports : List PortBinding
  dependency : Dependency

namespace Description

def lines (coloured : Bool) (d : Description) : List String :=
  let e := d.environment
  [s!"name:     {e.name}",
    s!"status:   {statusText coloured e.status}",
    s!"image:    {e.image}",
    s!"ssh:      {portText e.sshPort}",
    s!"gpu:      {yesOrNo e.manifest.gpu}",
    s!"cuda:     {orDash e.manifest.cuda}",
    s!"jupyter:  {orDash e.jupyter}",
    s!"rstudio:  {orDash e.rstudio}",
    ""] ++ portTable d.ports ++ if d.dependency.isEmpty then [] else "" :: packageLines d.dependency

/-- The whole in JSON, members in the order of their keys. -/
def toJson (d : Description) : Json :=
  (Json.record [("environment", d.environment.toJson), ("ports", Json.ofList PortBinding.toJson d.ports),
    ("dependency", d.dependency.toJson)]).sorted

end Description

/-- How a started environment is reached. -/
def startedLines (s : Started) : List String :=
  s!"ssh port: {portText s.sshPort}" ::
    ((if s.address = "" then [] else [s!"address:  {s.address}"]) ++
      s.ports.map fun p => Text.row [9] [p.name ++ ":", portText p.port])

/-- The outcome of an operation that may have had nothing to do, in JSON. -/
def outcomeJson (name key : String) (done : Bool) : Json :=
  (Json.record [("name", .ofString name), (key, .bool done)]).sorted

/-- The code that the program ends with after an error. -/
def exitCode : Error.Kind → UInt8
  | .notFound => 2
  | .conflict => 3
  | .timeout => 4
  | .resourceExhausted | .unsupported | .invalid | .transport => 1

/-- The help on the program as a whole. -/
def helpText : String := textOf [
  "Start, inspect and tear down reproducible development environments",
  "",
  "Usage: envd [OPTIONS] <COMMAND>",
  "",
  "Commands:",
  "  up           Start an environment from an image",
  "  destroy      Remove an environment and its image",
  "  pause        Pause a running environment",
  "  resume       Resume a paused environment",
  "  ls           List environments",
  "  images       List envd images",
  "  describe     Show an environment with its ports and packages",
  "  deps         Show the packages an environment or image was built with",
  "  ports        Show the port bindings of an environment",
  "  completions  Generate shell completions",
  "  help         Print this message or the help of the given subcommand(s)",
  "",
  "Options:",
  "      --context <CONTEXT>        Context to use instead of the current one",
  "      --runtime <RUNTIME>        Container runtime for docker contexts (`docker` or `mock`)",
  "      --docker-bin <DOCKER_BIN>  Path to the docker binary. Falls back to `ENVD_DOCKER`",
  "      --json                     Output results as structured JSON",
  "  -v, --verbose                  Enable verbose (debug) logging output",
  "      --trace                    Enable trace-level logging (more detailed than --verbose)",
  "  -h, --help                     Print help",
  "  -V, --version                  Print version"]

def versionText : String := textOf ["envd 0.1.0"]

end DevEnv.Cli
