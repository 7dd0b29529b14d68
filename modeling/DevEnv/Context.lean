import DevEnv.Text.Split
import DevEnv.Text.Path
import DevEnv.Status

/-! Contexts: the control planes known to a user, one of which is in use.
Contexts are looked up by name, the first one counting; none is added under a name in use. -/
namespace DevEnv

/-- Which control plane runs the environments of a context. -/
inductive Runner where
  | docker
  | server
  deriving DecidableEq, Repr, Inhabited

namespace Runner

def name : Runner → String
  | docker => "docker"
  | server => "envd-server"

def named? (s : String) : Option Runner := [docker, server].find? (·.name = s)

def toJson (r : Runner) : Json := .ofString r.name

def ofJson? (j : Json) : Option Runner := j.asWord?.bind named?

end Runner

structure Context where
  name : String
  runner : Runner := .docker
  address : Option String := none
  login : Option String := none
  token : Option String := none
  deriving DecidableEq, Repr, Inhabited

namespace Context

/-- What stands between the scheme of an address and its host. -/
def schemeMark : List Char := [':', '/', '/']

/-- The part of an address that names the host: after the scheme, up to a slash or colon. -/
def hostChars (address : List Char) : List Char :=
  let rest := (Text.afterChars schemeMark address).getD address
  rest.takeWhile fun c => c ≠ '/' && c ≠ ':'

/-- The host on which environments of the context are reached by SSH. -/
def sshHost (c : Context) : String :=
  match c.address with
  | none => "localhost"
  | some address =>
    let host := hostChars address.toList
    if host.isEmpty then "localhost" else String.ofList host

def toJson (c : Context) : Json :=
  let text? (key : String) (value : Option String) := match value with
    | some v => [(key, Json.ofString v)]
    | none => []
  .record ([("name", .ofString c.name), ("runner", c.runner.toJson)] ++ text? "runner_address" c.address ++
    text? "login_name" c.login ++ text? "jwt_token" c.token)

def ofJson? (j : Json) : Option Context := do
  let text := Json.asOption? Json.asString?
  match ← j.slots? ["name", "runner", "runner_address", "login_name", "jwt_token"] with
  | [name, runner, address, login, token] =>
    return {
      name := ← name.required Json.asString?
      runner := ← runner.defaulted .docker Runner.ofJson?
      address := ← address.defaulted none text
      login := ← login.defaulted none text
      token := ← token.defaulted none text }
  | _ => none

end Context

/-- All contexts of a user and the name of the one in use. -/
structure Contexts where
  current : String
  contexts : List Context
  deriving DecidableEq, Repr, Inhabited

namespace Contexts

inductive Error where
  | inaccessible (reason : String)
  | malformed
  | unknown (name : String)
  | duplicate (name : String)
  | noHome
  deriving DecidableEq, Repr

def Error.message : Error → String
  | inaccessible reason => s!"config I/O error: {reason}"
  | malformed => "failed to parse context config: not a context configuration"
  | unknown name => s!"context '{name}' not found"
  | duplicate name => s!"context '{name}' already exists"
  | noHome => "HOME not set"

/-- The contexts of a user who has set up none. -/
def initial : Contexts := ⟨"default", [{ name := "default" }]⟩

def get (cs : Contexts) (name : String) : Except Error Context :=
  match cs.contexts.find? (·.name = name) with
  | some c => .ok c
  | none => .error (.unknown name)

def inUse (cs : Contexts) : Except Error Context := cs.get cs.current

def add (cs : Contexts) (c : Context) : Except Error Contexts :=
  if cs.contexts.any (·.name = c.name) then .error (.duplicate c.name)
  else .ok { cs with contexts := cs.contexts ++ [c] }

def use (cs : Contexts) (name : String) : Except Error Contexts := do
  let _ ← cs.get name
  return { cs with current := name }

/-- Refuses contexts of which the one in use is not known. -/
def check (cs : Contexts) : Except Error Contexts := do
  let _ ← cs.inUse
  return cs

/-- The file that holds a user's contexts. -/
def file (home : Option String) : Except Error String :=
  match home with
  | some home => .ok (Text.Path.under home ".config/envd/contexts.toml")
  | none => .error .noHome

def toJson (cs : Contexts) : Json :=
  .record [("current", .ofString cs.current), ("context", Json.ofList Context.toJson cs.contexts)]

def ofJson? (j : Json) : Option Contexts := do
  match ← j.closedSlots? ["current", "context"] with
  | [current, contexts] =>
    return {
      current := ← current.required Json.asString?
      contexts := ← contexts.defaulted [] (Json.asList? Context.ofJson?) }
  | _ => none

end Contexts
end DevEnv
