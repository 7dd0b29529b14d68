import DevEnv.Cli.Run

/-! The program `envd`. It reads files and keeps time; other programs and servers are out of its reach,
so that only the runtime in memory answers. -/
namespace DevEnv.Cli

/-- What is said of anything out of reach. -/
def outOfReach : String := "No such file or directory (os error 2)"

/-- The ports that a free one is picked from. -/
def firstFreePort : Nat := 32768
def lastFreePort : Nat := 60999

def readFile (path : String) : IO File.Contents := do
  try
    let bytes ← IO.FS.readBinFile path
    return .ok bytes.toList
  catch
    | .noFileOrDirectory .. => return .error (.missing outOfReach)
    | e => return .error (.refused e.toString)

def resolvePath (path : String) : IO (Except String String) := do
  try
    return .ok (← IO.FS.realPath path).toString
  catch e => return .error e.toString

/-- Answers what a run asks. -/
def answer : (q : World.Query) → IO q.Answer
  | .host .now => return ⟨← IO.monoNanosNow⟩
  | .host (.sleep span) => IO.sleep ((span.nanos + 999999) / 1000000).toUInt32
  | .host .cancelled => return false
  | .host .freePort => return .ok (← IO.rand firstFreePort lastFreePort).toUInt16
  | .command _ => return .error (.missing outOfReach)
  | .exchange _ => return .unreached "no connection"
  | .read path => readFile path
  | .resolve path => resolvePath path

def settingOfEnvironment : IO Setting := do
  return {
    home := ← IO.getEnv "HOME"
    dockerBinary := ← IO.getEnv "ENVD_DOCKER"
    coloured := (← IO.getEnv "CLICOLOR_FORCE").any (· ≠ "0")
    patience := ⟨Watch.usualInterval, 1 <<< 40⟩ }

end DevEnv.Cli

open DevEnv in
def main (arguments : List String) : IO UInt32 := do
  let setting ← Cli.settingOfEnvironment
  match ← (Cli.run setting arguments).perform Cli.answer with
  | none => return 1
  | some outcome =>
    IO.print outcome.out
    IO.eprint outcome.err
    return outcome.code.toUInt32
