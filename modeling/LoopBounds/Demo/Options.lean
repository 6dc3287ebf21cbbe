/-
The arguments of the demonstration.

At most one scenario is named; options may stand before and after it. An option
with a value takes it from its own argument after an equals sign, or from the
next argument, which must then not look like an option. After two dashes alone
nothing counts as an option. Nothing may be given twice.
-/
import LoopBounds.Demo.Scenario
import LoopBounds.Text.Decimal

namespace LoopBounds.Demo

/-- What the demonstration is asked to do. -/
structure Options where
  scenario : Scenario := .gather
  /-- Upper bound of the outer loop variable. -/
  extent : Int := 127
  /-- Whether an index that is resolved again must have the same range. -/
  strict : Bool := false
  maxDepth : Nat := 16
  /-- The file to write the drawing to. -/
  dot : Option String := none
  verbose : Bool := false
deriving DecidableEq, Repr

/-- What is wrong with the arguments. -/
inductive UsageError where
  | unexpected (argument : String)
  | missingValue (option : String)
  | invalidValue (option value : String)
  | repeated (option : String)
deriving DecidableEq, Repr

/-- What is told about wrong arguments. -/
def UsageError.message : UsageError → String
  | .unexpected argument => "unexpected argument '" ++ argument ++ "'"
  | .missingValue option => "a value is required for '" ++ option ++ "'"
  | .invalidValue option value => "invalid value '" ++ value ++ "' for '" ++ option ++ "'"
  | .repeated option => "'" ++ option ++ "' cannot be used multiple times"

namespace Options

/-- The integers of 64 bits with a sign. -/
def isExtent (n : Int) : Bool :=
  -9223372036854775808 ≤ n && n ≤ 9223372036854775807

/-- The natural numbers of 64 bits. -/
def isDepth (n : Nat) : Bool :=
  n ≤ 18446744073709551615

/-- Options that take a value. -/
def takesValue (option : String) : Bool :=
  option = "--extent" || option = "--max-depth" || option = "--dot"

/-- Sets an option to a value. -/
def setValue (options : Options) (option value : String) : Except UsageError Options :=
  let invalid := .error (.invalidValue option value)
  match option with
  | "--extent" =>
    match (Text.readInt value).filter isExtent with
    | some extent => .ok { options with extent }
    | none => invalid
  | "--max-depth" =>
    match (Text.readNat value).filter isDepth with
    | some maxDepth => .ok { options with maxDepth }
    | none => invalid
  | "--dot" => if value.isEmpty then invalid else .ok { options with dot := some value }
  | _ => .error (.unexpected option)

/-- Sets an option that has no value. -/
def setFlag (options : Options) (option : String) : Except UsageError Options :=
  match option with
  | "--strict" => .ok { options with strict := true }
  | "--verbose" => .ok { options with verbose := true }
  | _ => .error (.unexpected option)

/-- Sets the scenario by name. -/
def setScenario (options : Options) (name : String) : Except UsageError Options :=
  match Scenario.ofName? name with
  | some scenario => .ok { options with scenario }
  | none => .error (.invalidValue "scenario" name)

/-- An argument taken apart. -/
inductive Argument where
  | flag (option : String)
  | valued (option value : String)
  | scenario (name : String)
deriving DecidableEq, Repr

/-- The part before the first equals sign, and the part after it if there is one. -/
def splitValue (argument : String) : String × Option String :=
  let chars := argument.toList
  match chars.dropWhile (· ≠ '=') with
  | [] => (argument, none)
  | _ :: value => (String.ofList (chars.takeWhile (· ≠ '=')), some (String.ofList value))

/-- Whether an argument is read as an option: a dash with something behind it. -/
def looksLikeOption (argument : String) : Bool :=
  match argument.toList with
  | '-' :: _ :: _ => true
  | _ => false

/-- Takes the arguments apart; an option that needs a value takes the next argument. -/
def split : List String → Except UsageError (List Argument)
  | [] => .ok []
  | "--" :: rest => .ok (rest.map .scenario)
  | "-v" :: rest => do return .flag "--verbose" :: (← split rest)
  | argument :: rest =>
    if looksLikeOption argument then
      match splitValue argument with
      | (option, some value) =>
        if takesValue option then do return .valued option value :: (← split rest)
        else .error (.unexpected argument)
      | (option, none) =>
        if takesValue option then
          match rest with
          | [] => .error (.missingValue option)
          | value :: rest =>
            if looksLikeOption value then .error (.missingValue option)
            else do return .valued option value :: (← split rest)
        else do return .flag option :: (← split rest)
    else do return .scenario argument :: (← split rest)

/-- What must be given once only. -/
def Argument.key : Argument → String
  | .flag option => option
  | .valued option _ => option
  | .scenario _ => "scenario"

/-- Applies the arguments in order; `seen` are the keys given before. -/
def apply (options : Options) (seen : List String) : List Argument → Except UsageError Options
  | [] => .ok options
  | argument :: rest => do
    if argument.key ∈ seen then throw (.repeated argument.key)
    let options ←
      match argument with
      | .flag option => options.setFlag option
      | .valued option value => options.setValue option value
      | .scenario name => options.setScenario name
    options.apply (argument.key :: seen) rest

/-- The options given by a list of arguments. -/
def parse (arguments : List String) : Except UsageError Options := do
  Options.apply {} [] (← split arguments)

end Options

end LoopBounds.Demo
