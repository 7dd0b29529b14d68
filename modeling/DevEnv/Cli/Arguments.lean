import DevEnv.Text.Split

/-! Telling options from operands on a command line. An option is given by its name or its letter,
with its value attached or in the next argument; after two dashes there are operands only. -/
namespace DevEnv.Cli

/-- What is wrong with the arguments. -/
inductive Fault where
  | unknown (argument : String)
  | surplus (argument : String)
  | repeated (name : String)
  | valueMissing (name : String)
  | valueUnwanted (name : String)
  | invalid (name value : String)
  | operandMissing (name : String)
  | commandMissing
  deriving DecidableEq, Repr

def Fault.message : Fault → String
  | unknown argument => s!"unexpected argument '{argument}' found"
  | surplus argument => s!"unexpected argument '{argument}' found"
  | repeated name => s!"the argument '--{name}' cannot be used multiple times"
  | valueMissing name => s!"a value is required for '--{name}' but none was supplied"
  | valueUnwanted name => s!"unexpected value for '--{name}' found; no more were expected"
  | invalid name value => s!"invalid value '{value}' for '--{name}'"
  | operandMissing name => s!"the following required argument was not provided: {name}"
  | commandMissing => "a command is required but none was provided"

/-- An option of a command. -/
structure Switch where
  name : String
  letter : Option Char := none
  takesValue : Bool := true
  repeatable : Bool := false
  /-- Whether a negative number may follow as the value. -/
  takesNegative : Bool := false
  accepts : String → Bool := fun _ => true

/-- Options in the order given, with their values; a flag has an empty one. -/
abbrev Given : Type := List (String × String)

/-- The value an option was given. -/
def value? (name : String) (g : Given) : Option String := g.lookup name

def isGiven (name : String) (g : Given) : Bool := (value? name g).isSome

/-- All values of a repeatable option. -/
def values (name : String) (g : Given) : List String := (g.filter (·.1 = name)).map (·.2)

/-- Why a scan ended early: a fault, or an option that is answered at once. -/
inductive Stop where
  | fault (f : Fault)
  | version
  | help
  deriving DecidableEq, Repr

/-- The options that are answered at once, besides their name and letter. -/
structure Immediate where
  name : String
  letter : Char
  stop : Stop

/-- What a command takes. -/
structure Grammar where
  switches : List Switch
  immediate : List Immediate
  /-- The number of operands. -/
  operands : Nat
  /-- The words that end the scan where an operand could stand. -/
  commands : List String := []

/-- What has been read so far. -/
structure Scanned where
  given : Given := []
  operands : List String := []
  /-- The rest from a command on. -/
  rest : List String := []
  deriving Repr

namespace Scanned

/-- Takes in an option with its value. -/
def give (s : Scanned) (o : Switch) (value : String) : Except Stop Scanned :=
  if !o.repeatable && isGiven o.name s.given then .error (.fault (.repeated o.name))
  else if o.accepts value then .ok { s with given := s.given ++ [(o.name, value)] }
  else .error (.fault (.invalid o.name value))

def operand (x : Grammar) (s : Scanned) (argument : String) : Except Stop Scanned :=
  if s.operands.length < x.operands then .ok { s with operands := s.operands ++ [argument] }
  else .error (.fault (.surplus argument))

end Scanned

/-- What an argument is about to be followed by. -/
abbrev Pending : Type := Option Switch

/-- An option by its name, perhaps with a value attached. -/
def readLong (x : Grammar) (s : Scanned) (name : String) (value : Option String) : Except Stop (Scanned × Pending) :=
  match x.switches.find? (·.name = name), x.immediate.find? (·.name = name) with
  | some o, _ =>
    match o.takesValue, value with
    | true, some v => (s.give o v).map (·, none)
    | true, none => .ok (s, some o)
    | false, none => (s.give o "").map (·, none)
    | false, some _ => .error (.fault (.valueUnwanted name))
  | none, some i => if value.isSome then .error (.fault (.valueUnwanted name)) else .error i.stop
  | none, none => .error (.fault (.unknown ("--" ++ name)))

/-- Options by their letters; the first one that takes a value takes the rest, without an equals sign in front. -/
def readLetters (x : Grammar) (s : Scanned) : List Char → Except Stop (Scanned × Pending)
  | [] => .ok (s, none)
  | c :: rest =>
    match x.switches.find? (·.letter = some c), x.immediate.find? (·.letter = c) with
    | some o, _ =>
      if o.takesValue then
        match rest with
        | [] => .ok (s, some o)
        | '=' :: value => (s.give o (String.ofList value)).map (·, none)
        | value => (s.give o (String.ofList value)).map (·, none)
      else if rest.head? = some '=' then .error (.fault (.valueUnwanted o.name))
      else do readLetters x (← s.give o "") rest
    | none, some i => .error i.stop
    | none, none => .error (.fault (.unknown (String.ofList ['-', c])))

/-- Whether an argument looks like an option. -/
def isOption (argument : List Char) : Bool :=
  match argument with
  | '-' :: _ :: _ => true
  | _ => false

/-- An argument where no value is awaited. -/
def readArgument (x : Grammar) (s : Scanned) (argument : String) : Except Stop (Scanned × Pending) :=
  match argument.toList with
  | '-' :: '-' :: body =>
    match Text.cutChars '=' body with
    | some (name, value) => readLong x s (String.ofList name) (some (String.ofList value))
    | none => readLong x s (String.ofList body) none
  | '-' :: c :: rest => readLetters x s (c :: rest)
  | _ => (s.operand x argument).map (·, none)

/-- Whether an argument can be the value of an option. -/
def canBeValue (o : Switch) (argument : String) : Bool :=
  !isOption argument.toList || (o.takesNegative && argument.toList.tail.all Char.isDigit)

/-- Reads the arguments one after the other. -/
def scan (x : Grammar) : Scanned → Pending → List String → Except Stop Scanned
  | s, none, [] => .ok s
  | _, some o, [] => .error (.fault (.valueMissing o.name))
  | s, some o, argument :: rest =>
    if canBeValue o argument then do scan x (← s.give o argument) none rest
    else .error (.fault (.valueMissing o.name))
  | s, none, argument :: rest =>
    if x.commands.contains argument then .ok { s with rest := argument :: rest }
    else if argument = "--" then rest.foldlM (Scanned.operand x) s
    else do
      let (s, pending) ← readArgument x s argument
      scan x s pending rest

end DevEnv.Cli
