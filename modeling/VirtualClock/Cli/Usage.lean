/-!
The commands of the program and their options, and the help on them.
-/

namespace VirtualClock.Cli

/-- What options belong to: the program as a whole, or one of its commands. -/
inductive Scope where
  | program
  | replay
  | now
  | help
deriving DecidableEq

namespace Scope

/-- The commands, in the order in which help lists them. -/
def commands : List Scope := [replay, now, help]

/-- The name of a command. -/
def name : Scope → String
  | program => "tackle"
  | replay => "replay"
  | now => "now"
  | help => "help"

/-- What a command does. -/
def about : Scope → String
  | program => ""
  | replay => "Replay a timer scenario on a frozen clock and print the firing log"
  | now => "Print the clock's current instant"
  | help => "Print this message or the help of the given subcommand(s)"

/-- The command of a name. -/
def ofName? (s : String) : Option Scope := commands.find? (·.name == s)

end Scope

/-- An option. -/
inductive Flag where
  | config
  | scenario
  | metrics
  | frozen
  | help
  | version
deriving DecidableEq

namespace Flag

/-- The name behind two hyphens. -/
def long : Flag → String
  | config => "config"
  | scenario => "scenario"
  | metrics => "metrics"
  | frozen => "frozen"
  | help => "help"
  | version => "version"

/-- The letter behind one hyphen. -/
def short : Flag → Option Char
  | config => some 'c'
  | scenario => some 's'
  | metrics | frozen => none
  | help => some 'h'
  | version => some 'V'

/-- Whether an option takes a value. -/
def takesValue : Flag → Bool
  | config | scenario | frozen => true
  | metrics | help | version => false

/-- What an option is for. -/
def about : Flag → String
  | config => "Configuration file; defaults to `config/tackle.yaml` plus environment overrides"
  | scenario => "Scenario file (YAML)"
  | metrics => "Print Prometheus metrics after the firing log"
  | frozen => "Freeze the clock at this RFC 3339 instant first"
  | help => "Print help"
  | version => "Print version"

/-- An option with the name of its value. -/
def usage (f : Flag) : String :=
  "--" ++ f.long ++ (if f.takesValue then " <" ++ f.long.map Char.toUpper ++ ">" else "")

end Flag

/-- The options that a scope offers, in the order in which help lists them. -/
def Scope.flags : Scope → List Flag
  | .program => [.config, .help, .version]
  | .replay => [.config, .scenario, .metrics, .help]
  | .now => [.config, .frozen, .help]
  | .help => []

/-- The option of a name in a scope. -/
def Scope.long? (s : Scope) (name : String) : Option Flag := s.flags.find? (·.long == name)

/-- The option of a letter in a scope. -/
def Scope.short? (s : Scope) (letter : Char) : Option Flag :=
  s.flags.find? (·.short == some letter)

namespace Help

/-- The width of a line. -/
def lineWidth : Nat := 100

/-- Text with blanks behind it, up to a width. -/
def pad (width : Nat) (s : String) : String :=
  s ++ String.ofList (List.replicate (width - s.length) ' ')

/-- Words in lines of at most `width` characters; `line` is the line that is being filled. -/
def fill (width : Nat) (line : String) : List String → List String
  | [] => [line]
  | word :: rest =>
    if line.length + 1 + word.length ≤ width then fill width (line ++ " " ++ word) rest
    else line :: fill width word rest

/-- Text in lines of at most `width` characters. -/
def wrap (width : Nat) (text : String) : List String :=
  match text.splitOn " " with
  | [] => []
  | word :: rest => fill width word rest

/-- An entry of a list: a head and a text, which stands in a column of its own. -/
def entry (column : Nat) (head text : String) : List String :=
  match wrap (lineWidth - column) text with
  | [] => [head]
  | first :: rest => (pad column head ++ first) :: rest.map (pad column "" ++ ·)

/-- A list of entries, aligned to the longest head. -/
def entries (es : List (String × String)) : List String :=
  let column := (es.map fun (head, _) => head.length).foldl max 0 + 2
  es.flatMap fun (head, text) => entry column head text

/-- The head of an option; the place of the letter is left free if there is none. -/
def flagHead (f : Flag) : String :=
  (match f.short with
    | some c => "  -" ++ c.toString ++ ", "
    | none => "      ") ++ f.usage

/-- What follows the name of the program in a usage line. -/
def usage : Scope → String
  | .program => " [OPTIONS] <COMMAND>"
  | .replay => " replay [OPTIONS] --scenario <SCENARIO>"
  | .now => " now [OPTIONS]"
  | .help => " help [COMMAND]..."

/-- The help on a scope. -/
def lines (s : Scope) : List String :=
  (if s.about == "" then [] else [s.about, ""]) ++
    ["Usage: " ++ Scope.program.name ++ usage s, ""] ++
    (if s == .program then
      "Commands:" :: entries (Scope.commands.map fun c => ("  " ++ c.name, c.about)) ++ [""]
    else []) ++
    (if s == .help then
      "Arguments:" :: entries [("  [COMMAND]...", "Print help for the subcommand(s)")]
    else "Options:" :: entries (s.flags.map fun f => (flagHead f, f.about)))

/-- The version of the program. -/
def version : String := "tackle-cli 0.1.0"

end Help

end VirtualClock.Cli
