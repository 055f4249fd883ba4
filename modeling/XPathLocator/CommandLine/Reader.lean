import XPathLocator.CommandLine.Interface

/-!
# `XPathLocator.CommandLine.Reader`: reading arguments

`Interface.read` reads the arguments of a program from left to right into what
was `Given` to each command on the way to the last one.

An argument is, in this order of precedence, the name of a command, an option,
the value of the option before it, or an operand. The name of a command is not
looked for where a value is due. An argument that looks like an option and is
none can stand as a value where the next operand may start with a hyphen; for a
cluster of letters that holds as soon as one of them is unknown. Behind two
hyphens all is operands.

A value behind its option is judged when the next argument is taken, so a
request for the version or for help wins over one that comes later. No option
may be given twice to one command.
-/

set_option autoImplicit false

namespace XPathLocator.CommandLine

/-- Why reading ended without a command to carry out. -/
inductive Stop
  /-- The arguments fit no command. -/
  | usage
  /-- The version was asked for, under the commands named. -/
  | version (path : List String)
  /-- Help was asked for, under the commands named. -/
  | help (path : List String)
deriving DecidableEq, Repr

/-- What a command was given: the values of its options by long name, and its
operands. -/
structure Given where
  values : List (String × String)
  operands : List String
deriving DecidableEq, Repr

/-- How far the arguments of a command have been read. -/
structure Scope where
  interface : Interface
  /-- The names of the commands that led here. -/
  path : List String
  given : Given
  /-- The option whose value is due, or there and not judged yet. -/
  waiting : Option (Flag × Option String)
  /-- Whether all that follows is operands. -/
  operandsOnly : Bool

namespace Scope

/-- Nothing has been read. -/
def start (interface : Interface) (path : List String) : Scope :=
  ⟨interface, path, ⟨[], []⟩, none, false⟩

/-- Whether the value of an option is due. -/
def awaits (s : Scope) : Bool :=
  match s.waiting with
  | some (_, none) => true
  | _ => false

/-- Whether the next operand may start with a hyphen. -/
def takesHyphen (s : Scope) : Bool :=
  s.interface.operands[s.given.operands.length]?.any (·.hyphen)

/-- Records an option. -/
def record (s : Scope) (flag : Flag) (value : String) : Except Stop Scope :=
  let accepted := match flag.kind with
    | .value accepts => accepts value
    | _ => true
  if accepted && (s.given.values.lookup flag.long).isNone then
    .ok { s with given := ⟨(flag.long, value) :: s.given.values, s.given.operands⟩ }
  else .error .usage

/-- Judges the value that waits, if one does. -/
def settle (s : Scope) : Except Stop Scope :=
  match s.waiting with
  | none => .ok s
  | some (_, none) => .error .usage
  | some (flag, some value) => { s with waiting := none }.record flag value

/-- Takes an option, with the value that is attached to it. -/
def option (s : Scope) (flag : Flag) (attached : Option String) : Except Stop Scope :=
  match flag.kind, attached with
  | .value _, some value => do (← s.settle).record flag value
  | .value _, none => return { (← s.settle) with waiting := some (flag, none) }
  | _, some _ => .error .usage
  | .switch, none => do (← s.settle).record flag ""
  | .version, none => do throw (.version (← s.settle).path)
  | .help, none => do throw (.help (← s.settle).path)

/-- Takes an argument with two hyphens, given without them; nothing if it can
be a value. -/
def long (s : Scope) (text : List Char) : Except Stop (Option Scope) :=
  let name := String.ofList (text.takeWhile (· ≠ '='))
  let attached := match text.dropWhile (· ≠ '=') with
    | [] => none
    | _ :: value => some (String.ofList value)
  match s.interface.long? name with
  | some flag => some <$> s.option flag attached
  | none => if s.takesHyphen then .ok none else .error .usage

/-- Takes the letters of a cluster. What follows the letter of an option with a
value is that value, without an equals sign between them. -/
def letters (s : Scope) : List Char → Except Stop Scope
  | [] => .ok s
  | c :: rest =>
    match s.interface.short? c with
    | none => .error .usage
    | some flag => match flag.kind, rest with
      | .value _, [] => s.option flag none
      | .value _, '=' :: value => s.option flag (some (.ofList value))
      | .value _, value => s.option flag (some (.ofList value))
      | _, rest => do (← s.option flag none).letters rest

/-- Takes an argument with one hyphen, given without it; nothing if it can be a
value. -/
def short (s : Scope) (text : List Char) : Except Stop (Option Scope) :=
  if s.takesHyphen && text.any fun c => (s.interface.short? c).isNone then .ok none
  else some <$> s.letters text

/-- Takes an operand. -/
def operand (s : Scope) (text : String) : Except Stop Scope :=
  if s.given.operands.length < s.interface.operands.length then do
    let s ← s.settle
    return { s with given := ⟨s.given.values, s.given.operands ++ [text]⟩ }
  else .error .usage

/-- Takes an argument as the value that is due, or else as an operand. -/
def value (s : Scope) (text : String) : Except Stop Scope :=
  match s.waiting with
  | some (flag, none) => .ok { s with waiting := some (flag, some text) }
  | _ => s.operand text

/-- Takes an argument that names no command. -/
def argument (s : Scope) (text : String) : Except Stop Scope := do
  let option ← match text.toList with
    | ['-', '-'] => pure (some { s with operandsOnly := true })
    | '-' :: '-' :: name => s.long name
    | '-' :: c :: cluster => s.short (c :: cluster)
    | _ => pure none
  match option with
  | some s => return s
  -- It is no option here, so it stands for itself, hyphens included.
  | none => s.value text

/-- What a command was given, once its arguments have ended. -/
def finish (s : Scope) : Except Stop Given := do
  return (← s.settle).given

/-- The command that an argument names here, if any. -/
def command? (s : Scope) (text : String) : Option Interface :=
  if s.awaits then none else s.interface.commands.lookup text

/-- Whether an argument is the command that asks for help. -/
def asksHelp (s : Scope) (text : String) : Bool :=
  !s.awaits && !s.interface.commands.isEmpty && text = Interface.helpCommand

/-- Reads arguments to the end. The answer is the names of the commands, and
what the program and each of them was given. -/
def read (s : Scope) : List String → Except Stop (List String × List Given)
  | [] =>
    if s.interface.commands.isEmpty then do return (s.path, [← s.finish])
    else .error .usage
  | text :: rest =>
    if s.operandsOnly then do (← s.operand text).read rest
    else match s.command? text with
      | some next => do
        -- The command is read to its end before a value that waits here is judged,
        -- since its arguments may ask for the version or for help.
        let (path, given) ← (start next (s.path ++ [text])).read rest
        return (path, (← s.finish) :: given)
      | none =>
        if s.asksHelp text then
          .error (if s.interface.reaches rest then .help (s.path ++ rest) else .usage)
        else do (← s.argument text).read rest

end Scope

/-- Reads the arguments of a program. -/
def Interface.read (i : Interface) (arguments : List String) :
    Except Stop (List String × List Given) :=
  (Scope.start i []).read arguments

end XPathLocator.CommandLine
