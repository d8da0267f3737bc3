/-!
# What a command line may hold

* `OptionSpec` describes an option: its names, whether it takes a value and which values it takes.
* `OperandSpec` describes an operand, a word that is no option.
* `CommandSpec` describes a command by its options and operands.

Arguments are read by these descriptions and pages of help are made from them, so that a page tells
what is accepted.
-/

namespace Telegram.CommandLine

/-- What an option does with a value. -/
inductive Arity where
  /-- It takes none. -/
  | flag
  /-- It takes one. -/
  | value
  /-- It takes one, which may start with a hyphen. -/
  | hyphenValue
  /-- It takes some, with commas between them, and may be given again to take more. -/
  | list
  /-- It takes none and ends the reading of arguments. -/
  | stop
  deriving DecidableEq

/-- The option takes a value. -/
def Arity.takesValue : Arity → Bool
  | .flag | .stop => false
  | .value | .hyphenValue | .list => true

/-- One of the words that a value is chosen from. -/
structure Choice where
  name : String
  /-- What it stands for; empty if its name says so. -/
  help : String := ""

/-- The choice is more than its name. -/
def Choice.isDescribed (choice : Choice) : Bool :=
  choice.help != ""

/-- What the value of an option is called if nothing better is known: its name in capitals. -/
def capitals (name : String) : String :=
  name.map fun c => if c = '-' then '_' else c.toUpper

/-- An option. -/
structure OptionSpec where
  name : String
  letter : Option Char := none
  arity : Arity := .value
  /-- What it is for. -/
  help : String
  /-- What its value is called. -/
  valueName : String := capitals name
  /-- The words that its value is chosen from; if there are none, it is not chosen from words. -/
  choices : List Choice := []
  /-- The value that is meant if none is given. -/
  fallback : Option String := none
  accepts : String → Bool := fun _ => true

namespace OptionSpec

/-- The values that are given in one word. -/
def parts (spec : OptionSpec) (value : String) : List String :=
  if spec.arity = .list then value.splitOn "," else [value]

/-- The option takes the value. -/
def admits (spec : OptionSpec) (value : String) : Bool :=
  (spec.parts value).all fun part =>
    (spec.choices.isEmpty || spec.choices.any fun choice => choice.name == part) && spec.accepts part

end OptionSpec

/-- An operand. -/
structure OperandSpec where
  name : String
  /-- What it is for. -/
  help : String
  required : Bool := true
  /-- It may be given many times. -/
  repeated : Bool := false
  accepts : String → Bool := fun _ => true

/-- A command. -/
structure CommandSpec where
  name : String
  /-- What it does. -/
  about : String
  options : List OptionSpec := []
  operands : List OperandSpec := []

end Telegram.CommandLine
