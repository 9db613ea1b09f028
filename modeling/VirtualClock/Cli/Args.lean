import VirtualClock.Cli.Usage
import VirtualClock.Reading.Parser

/-!
Reading the arguments of the command line. An option may be given once, and its value stands behind
an equals sign, right behind its letter, or in the next argument. The value of a next argument is
only examined when the next option or the end is reached, and not at all if an argument that no one
knows comes first.
-/

namespace VirtualClock.Cli

/-- Why arguments do not ask for a run of the program. -/
inductive UsageError where
  | displayHelp (scope : Scope)
  | displayVersion
  /-- Nothing is asked for at all. -/
  | nothingGiven
  | missingSubcommand
  | invalidSubcommand
  | unknownArgument
  /-- The value of an option is missing or empty. -/
  | invalidValue
  /-- The value of an option cannot be read. -/
  | valueValidation
  /-- An option without a value was given one. -/
  | tooManyValues
  /-- An option was given twice. -/
  | argumentConflict
  | missingRequiredArgument
deriving DecidableEq

/-- The kind of an error. -/
def UsageError.kind : UsageError → String
  | displayHelp _ => "DisplayHelp"
  | displayVersion => "DisplayVersion"
  | nothingGiven => "DisplayHelpOnMissingArgumentOrSubcommand"
  | missingSubcommand => "MissingSubcommand"
  | invalidSubcommand => "InvalidSubcommand"
  | unknownArgument => "UnknownArgument"
  | invalidValue => "InvalidValue"
  | valueValidation => "ValueValidation"
  | tooManyValues => "TooManyValues"
  | argumentConflict => "ArgumentConflict"
  | missingRequiredArgument => "MissingRequiredArgument"

/-- What the program is asked to do. -/
inductive Command where
  | replay (scenario : String) (metrics : Bool)
  | now (frozen : Option Reading)
deriving DecidableEq

/-- What the arguments ask for. -/
structure Invocation where
  command : Command
  config : Option String
deriving DecidableEq

/-- The options read so far in one scope. -/
structure Given where
  scope : Scope
  values : List (Flag × String) := []
  /-- The last option, whose value is not examined yet; it may still be missing. -/
  pending : Option (Flag × Option String) := none

namespace Given

/-- The value of an option. -/
def value? (g : Given) (f : Flag) : Option String := (g.values.find? (·.1 == f)).map (·.2)

/-- Takes an option with its value. -/
def take (g : Given) (f : Flag) (value : Option String) : Except UsageError Given := do
  match f with
  | .help => throw (.displayHelp g.scope)
  | .version => throw .displayVersion
  | _ =>
    if f.takesValue && value.isNone then throw .invalidValue
    if (g.value? f).isSome then throw .argumentConflict
    let value := value.getD ""
    if (f == .config || f == .scenario) && value == "" then throw .invalidValue
    if f == .frozen && (Reading.ofString? value).isNone then throw .valueValidation
    return { g with values := (f, value) :: g.values }

/-- Takes the last option. -/
def settle (g : Given) : Except UsageError Given :=
  match g.pending with
  | none => .ok g
  | some (f, value) => { g with pending := none }.take f value

/-- Whether the next argument is a value. -/
def awaits (g : Given) : Bool := g.pending.any fun (_, value) => value.isNone

/-- Takes an option with the value that is attached to it, if there is one. -/
def option (g : Given) (f : Flag) (attached : Option String) : Except UsageError Given := do
  let g ← g.settle
  if f.takesValue && attached.isNone then return { g with pending := some (f, none) }
  g.take f attached

/-- Reads an argument behind two hyphens. -/
def long (g : Given) (cs : List Char) : Except UsageError Given :=
  let name := cs.takeWhile (· != '=')
  let attached : Option String :=
    match cs.drop name.length with
    | [] => none
    | _ :: value => some (.ofList value)
  match g.scope.long? (.ofList name) with
  | none => .error .unknownArgument
  | some f =>
    if !f.takesValue && attached.isSome then .error .tooManyValues else g.option f attached

/-- Reads the letters behind one hyphen. What follows the letter of an option with a value is that
value, without an equals sign in front. -/
def shorts (g : Given) : List Char → Except UsageError Given
  | [] => .ok g
  | c :: rest =>
    match g.scope.short? c with
    | none => .error .unknownArgument
    | some f =>
      if f.takesValue then
        let attached : Option String :=
          match rest with
          | [] => none
          | '=' :: value => some (.ofList value)
          | value => some (.ofList value)
        g.option f attached
      else do (← g.option f none).shorts rest

/-- An argument that is no option, where no value is awaited. -/
def stray (g : Given) (arg : String) (escaped : Bool) : UsageError :=
  if g.scope != .program || (escaped && (Scope.ofName? arg).isSome) then .unknownArgument
  else .invalidSubcommand

/-- Reads arguments up to the name of a command, which only the program as a whole has. Behind two
hyphens alone there are no options. -/
def read (g : Given) (escaped : Bool) :
    List String → Except UsageError (Given × Option (Scope × List String))
  | [] => .ok (g, none)
  | arg :: rest =>
    let command := if g.scope == .program && !g.awaits then Scope.ofName? arg else none
    if escaped then .error (g.stray arg true)
    else if let some c := command then .ok (g, some (c, rest))
    else
      match arg.toList with
      | ['-', '-'] => g.read true rest
      | '-' :: '-' :: cs => do (← g.long cs).read false rest
      | '-' :: c :: cs => do (← g.shorts (c :: cs)).read false rest
      | _ =>
        match g.pending with
        | some (f, none) => { g with pending := some (f, some arg) }.read false rest
        | _ => .error (g.stray arg false)

end Given

/-- The scope that help is asked for, by the names of commands. -/
def helpScope? : Scope → List String → Option Scope
  | s, [] => some s
  | s, name :: rest =>
    if s != .program then none
    else
      match Scope.ofName? name with
      | some c => helpScope? c rest
      | none => none

/-- What a command is asked to do, with the configuration file of the command itself. -/
def readCommand (scope : Scope) (args : List String) :
    Except UsageError (Command × Option String) := do
  let (g, _) ← Given.read { scope } false args
  let g ← g.settle
  let config := g.value? .config
  if scope == .now then
    return (.now ((g.value? .frozen).bind Reading.ofString?), config)
  else
    match g.value? .scenario with
    | some scenario => return (.replay scenario (g.value? .metrics).isSome, config)
    | none => throw .missingRequiredArgument

/-- What the arguments of the program ask for. The configuration file that a command is given
wins. -/
def parse (args : List String) : Except UsageError Invocation := do
  match ← Given.read { scope := .program } false args with
  | (_, some (.help, names)) =>
    match helpScope? .program names with
    | some s => throw (.displayHelp s)
    | none => throw .invalidSubcommand
  | (g, some (scope, rest)) =>
    let (command, config) ← readCommand scope rest
    let g ← g.settle
    return ⟨command, config.or (g.value? .config)⟩
  | (g, none) =>
    let g ← g.settle
    throw (if g.values.isEmpty then .nothingGiven else .missingSubcommand)

end VirtualClock.Cli
