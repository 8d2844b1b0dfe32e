import InteractionNets.Reduction.Engine
import InteractionNets.Systems.Catalog
import InteractionNets.Word

/-!
# Requests on the command line

The program adds and multiplies numbers by reducing nets, and prints rule systems. A command line
is read from left to right: options may stand before and after the command's name, each once at
either place, and a limit after it wins over one before it. After a double hyphen only operands
follow.
-/

namespace InteractionNets.CommandLine

/-! ### Requests -/

/-- What is calculated. -/
inductive Operator where
  | add
  | mul
deriving DecidableEq, Inhabited

/-- The sign of an operator. -/
def Operator.sign : Operator → String
  | .add => "+"
  | .mul => "*"

/-- The net of an operator on two numbers. -/
def Operator.net : Operator → Nat → Nat → Except Fault Net
  | .add => Peano.sum
  | .mul => Peano.product

/-- The options that were given: a limit on the number of interactions, working in rounds,
printing the reduced net, and printing in JSON. -/
structure Options where
  maxSteps : Option Nat
  parallel : Bool
  showNet : Bool
  json : Bool
deriving DecidableEq, Inhabited

/-- What the program is asked to do. -/
inductive Request where
  | version
  | calculate (operator : Operator) (a b : Nat) (options : Options)
  | rules (system : RuleSystem) (json : Bool)
deriving Inhabited

namespace Options

/-- No options. -/
def unset : Options :=
  ⟨none, false, false, false⟩

/-- The options given before and after a command's name. -/
def merge (before after : Options) : Options where
  maxSteps := after.maxSteps <|> before.maxSteps
  parallel := before.parallel || after.parallel
  showNet := before.showNet || after.showNet
  json := before.json || after.json

/-- Set the limit on the number of interactions, unless it is set already. -/
def setMaxSteps? (o : Options) (limit : Nat) : Option Options :=
  if o.maxSteps.isSome then none else some { o with maxSteps := some limit }

/-- Set an option that takes no value, unless it is set already. -/
def setFlag? (o : Options) (name : String) : Option Options :=
  match name with
  | "--parallel" => if o.parallel then none else some { o with parallel := true }
  | "--show" => if o.showNet then none else some { o with showNet := true }
  | "--json" => if o.json then none else some { o with json := true }
  | _ => none

/-- The settings of the engine. -/
def settings (o : Options) : Settings where
  maxSteps := o.maxSteps
  strategy := if o.parallel then .parallel else .sequential

end Options

/-- Read a number below 2⁶⁴: decimal digits, after a plus sign or without one. -/
def readNumber? (s : String) : Option Nat :=
  let digits :=
    match s.toList with
    | '+' :: rest => rest
    | cs => cs
  if digits.isEmpty || !digits.all Char.isDigit then none
  else
    let n := digits.foldl (fun n c => 10 * n + (c.toNat - '0'.toNat)) 0
    if n < Word.count64 then some n else none

/-- The text after a given beginning of a string. -/
def textAfter? (start s : String) : Option String :=
  if start.toList.isPrefixOf s.toList then some (String.ofList (s.toList.drop start.length))
  else none

/-- Whether an argument looks like an option: a hyphen with something after it. -/
def isOption (arg : String) : Bool :=
  match arg.toList with
  | '-' :: _ :: _ => true
  | _ => false

/-- Read an option that is one argument: the options with it. -/
def Options.readOption? (o : Options) (arg : String) : Option Options :=
  match textAfter? "--max-steps=" arg with
  | some value => do o.setMaxSteps? (← readNumber? value)
  | none => o.setFlag? arg

/-- Read the arguments after a command's name: the options and the operands, in order. -/
def readOperands? (options : Options) (operands : List String) :
    List String → Option (Options × List String)
  | [] => some (options, operands)
  | "--" :: rest => some (options, operands ++ rest)
  | "--max-steps" :: value :: rest => do
    readOperands? (← options.setMaxSteps? (← readNumber? value)) operands rest
  | arg :: rest =>
    if isOption arg then do readOperands? (← options.readOption? arg) operands rest
    else readOperands? options (operands ++ [arg]) rest

/-- Read a command with what follows its name. -/
def readCommand? (before : Options) (name : String) (args : List String) : Option Request := do
  let (after, operands) ← readOperands? .unset [] args
  let options := before.merge after
  match name, operands with
  | "add", [a, b] => return .calculate .add (← readNumber? a) (← readNumber? b) options
  | "mul", [a, b] => return .calculate .mul (← readNumber? a) (← readNumber? b) options
  | "rules", [system] => return .rules (← RuleSystem.ofName? system) options.json
  | _, _ => none

/-- Whether an argument asks for the version. -/
def asksVersion (arg : String) : Bool :=
  arg == "--version" || "-V".toList.isPrefixOf arg.toList

/-- Read the arguments from the front, after some options. -/
def readFrom? (options : Options) : List String → Option Request
  | [] => none
  | "--max-steps" :: value :: rest => do
    readFrom? (← options.setMaxSteps? (← readNumber? value)) rest
  | arg :: rest =>
    if asksVersion arg then some .version
    else if isOption arg then do readFrom? (← options.readOption? arg) rest
    else readCommand? options arg rest

/-- Read a command line; nothing if it is not one. -/
def read? (args : List String) : Option Request :=
  readFrom? .unset args

end InteractionNets.CommandLine
