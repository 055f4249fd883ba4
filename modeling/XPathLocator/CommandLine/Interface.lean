/-!
# `XPathLocator.CommandLine.Interface`: what arguments a command takes

An `Interface` describes the arguments of a command: its options, its operands
in order, and the commands under it. A command with others under it takes no
operands of its own, and one of the others has to be named.
-/

set_option autoImplicit false

namespace XPathLocator.CommandLine

/-- What an option is for. -/
inductive Flag.Kind
  /-- It is there or not. -/
  | switch
  /-- It has a value, of those that are accepted. -/
  | value (accepts : String → Bool)
  /-- It asks for the version. -/
  | version
  /-- It asks for help. -/
  | help

/-- An option, known by a long name and perhaps by a letter. -/
structure Flag where
  long : String
  short : Option Char
  kind : Flag.Kind

/-- An operand. -/
structure Operand where
  /-- Whether it may start with a hyphen. -/
  hyphen : Bool

/-- The arguments of a command, and the commands under it by name. -/
inductive Interface
  | mk (flags : List Flag) (operands : List Operand) (commands : List (String × Interface))

namespace Interface

/-- The options of a command. -/
def flags : Interface → List Flag
  | .mk flags _ _ => flags

/-- The operands of a command. -/
def operands : Interface → List Operand
  | .mk _ operands _ => operands

/-- The commands under a command. -/
def commands : Interface → List (String × Interface)
  | .mk _ _ commands => commands

/-- The option of a long name. -/
def long? (i : Interface) (name : String) : Option Flag :=
  i.flags.find? (·.long = name)

/-- The option of a letter. -/
def short? (i : Interface) (letter : Char) : Option Flag :=
  i.flags.find? (·.short = some letter)

/-- The name of the command that asks for help about others. -/
def helpCommand : String := "help"

/-- Whether names lead from a command to one under it. The command that asks for
help is there wherever others are, and leads back. -/
def reaches (i : Interface) : List String → Bool
  | [] => true
  | name :: rest =>
    match i.commands.lookup name with
    | some next => next.reaches rest
    | none => name = helpCommand && !i.commands.isEmpty && i.reaches rest

end Interface

end XPathLocator.CommandLine
