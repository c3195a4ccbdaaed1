import ManifestPolicy.Command.Request

/-!
# Command-line arguments

How the console of the program sorts arguments. Options may stand before and after the
argument; each takes a value, written after an equals sign or as the next argument, and the
last value counts. Two dashes end the options. A dash alone is an ordinary argument.

Faults in the form of the options are found first. A request for help comes before too many
arguments.

## Main definitions

* `Command.settingNames`: the options of the command.
* `Command.Parsed.read?`: sorts arguments into option values and others.
* `Command.Parse.ofArguments`: what the arguments of the program say.
-/

namespace ManifestPolicy.Command

/-- What an option sets. -/
inductive Setting
  | ns
  | nilPolicy
  | root
  | config
  | format
deriving DecidableEq

/-- The names of the options. -/
def settingNames : List (Text × Setting) :=
  [("--namespace", .ns), ("--nil-policy", .nilPolicy), ("--root", .root),
   ("--config", .config), ("--format", .format)]

/-- Arguments sorted into option values and others. -/
structure Parsed where
  /-- The option values, in order. -/
  values : List (Setting × Text) := []
  positional : List Text := []
  help : Bool := false
deriving DecidableEq

/-- The last value given to a setting. -/
def Parsed.value? (p : Parsed) (setting : Setting) : Option Text :=
  (p.values.reverse.find? fun v => v.1 = setting).map Prod.snd

/-- Whether an argument is written as an option. -/
def isOption (argument : Text) : Bool :=
  argument.head? = some ('-' : CodePoint) && argument ≠ [('-' : CodePoint)]

/-- The name in an option, and the value after its first equals sign. -/
def splitOption (argument : Text) : Text × Option Text :=
  let name := argument.takeWhile fun c : CodePoint => c ≠ '='
  (name, (argument.drop name.length).tail?)

/-- Sorts arguments. `waiting` is an option whose value is the next argument. There is no
result if an option is unknown, lacks its value or has one it may not have. -/
def Parsed.read? (waiting : Option Setting) (p : Parsed) : List Text → Option Parsed
  | [] => if waiting.isSome then none else some p
  | argument :: rest =>
    match waiting with
    | some setting =>
      read? none { p with values := p.values ++ [(setting, argument)] } rest
    | none =>
      if argument = Text.ofString "--" then some { p with positional := p.positional ++ rest }
      else if isOption argument then
        let option := splitOption argument
        if option.1 = Text.ofString "--help" then
          if option.2.isSome then none else read? none { p with help := true } rest
        else
          match settingNames.find? fun s => s.1 = option.1, option.2 with
          | none, _ => none
          | some s, none => read? (some s.2) p rest
          | some s, some value =>
            read? none { p with values := p.values ++ [(s.2, value)] } rest
      else read? none { p with positional := p.positional ++ [argument] } rest

/-- The values that sorted arguments give. There are none if the command has more arguments
than it takes. -/
def Parsed.values? (p : Parsed) : Option Values :=
  if 1 < p.positional.length then none
  else some
    { manifest := p.positional.head?
      ns := p.value? .ns
      nilPolicy := p.value? .nilPolicy
      root := p.value? .root
      config := p.value? .config
      format := p.value? .format }

/-- What the arguments of the command say. -/
def Parse.ofCommand (arguments : List Text) : Parse :=
  match Parsed.read? none {} arguments with
  | none => .usageError
  | some p =>
    if p.help then .help
    else
      match p.values? with
      | none => .usageError
      | some values => .command values

/-- What the words of the program say: the name of the command, and its arguments. -/
def Parse.ofWords (help : Bool) : List Text → Parse
  | [] => if help then .help else .usageError
  | name :: arguments =>
    if help then .help
    else if name = Text.ofString "policies" then .ofCommand arguments
    else .usageError

/-- What the arguments of the program say. Before the name of the command only a request for
help and two dashes may stand. -/
def Parse.ofArguments (help : Bool) : List Text → Parse
  | [] => .ofWords help []
  | argument :: rest =>
    if argument = Text.ofString "--" then .ofWords help rest
    else if isOption argument then
      if argument = Text.ofString "--help" then ofArguments true rest else .usageError
    else .ofWords help (argument :: rest)

end ManifestPolicy.Command
