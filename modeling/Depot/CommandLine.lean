/-!
# The command line

The program takes the path of its configuration, `-c PATH` or `--config PATH`, and tells its help and its
version.

- `Command`: what is asked for.
- `CommandLine.parse`: the command of arguments, or the first thing that is wrong with them.
-/

namespace Depot

/-- What the program is asked for. -/
inductive Command where
  /-- To serve, with the path of the configuration if it is given. -/
  | serve (config : Option String)
  | help
  | version
  deriving DecidableEq, Repr

inductive UsageError where
  | unknownArgument
  /-- An option without its value. -/
  | invalidValue
  /-- An option that is given twice. -/
  | argumentConflict
  /-- A value for an option that takes none. -/
  | tooManyValues
  deriving DecidableEq, Repr

/-- An option whose value is still to come, or has come and is not yet taken. -/
inductive Pending where
  | none
  | expected
  | given (value : String)
  deriving DecidableEq, Repr

/-- What has been read of the arguments. -/
structure CommandLine where
  config : Option String
  pending : Pending
  deriving DecidableEq, Repr

namespace CommandLine

def defaultConfig : String := "config/server.toml"

/-- The variable that names the configuration where no argument does. -/
def configVariable : String := "HANGAR_CONFIG"

/-- The path of the configuration: the argument, else the variable. -/
def configPath (given : Option String) (environment : List (String × String)) : String :=
  (given <|> environment.lookup configVariable).getD defaultConfig

/-- Takes the value of the configuration, which may be given once. -/
def take (s : CommandLine) (value : String) : Except UsageError CommandLine :=
  if s.config.isSome then .error .argumentConflict else .ok ⟨some value, .none⟩

/-- Takes the value of the option that was read last. -/
def settle (s : CommandLine) : Except UsageError CommandLine :=
  match s.pending with
  | .none => .ok s
  | .expected => .error .invalidValue
  | .given value => take s value

/-- The configuration with a value in the same argument. -/
def attached (s : CommandLine) (value : String) : Except UsageError CommandLine := do
  (← s.settle).take value

/-- What an argument leads to: more arguments, or a command that needs no more. -/
inductive Step where
  | more (s : CommandLine)
  | stop (command : Command)

def expectValue (s : CommandLine) : Except UsageError Step := do
  return .more { ← s.settle with pending := .expected }

def stop (s : CommandLine) (command : Command) : Except UsageError Step := do
  discard s.settle
  return .stop command

/-- An option behind two hyphens. -/
def long (s : CommandLine) (argument : List Char) : Except UsageError Step :=
  let name := String.ofList (argument.takeWhile (· != '='))
  let value? := match argument.dropWhile (· != '=') with
    | _ :: value => some (String.ofList value)
    | [] => none
  if name = "config" then
    match value? with
    | some value => (s.attached value).map .more
    | none => s.expectValue
  else if name = "help" ∨ name = "version" then
    if value?.isSome then .error .tooManyValues else s.stop (if name = "help" then .help else .version)
  else .error .unknownArgument

/-- The options behind one hyphen, of which the first decides. -/
def short (s : CommandLine) : List Char → Except UsageError Step
  | ['c'] => s.expectValue
  | 'c' :: '=' :: value => (s.attached (String.ofList value)).map .more
  | 'c' :: value => (s.attached (String.ofList value)).map .more
  | 'h' :: _ => s.stop .help
  | 'V' :: _ => s.stop .version
  | _ => .error .unknownArgument

/-- An argument that is no option: the value that is expected, if one is. -/
def plain (s : CommandLine) (argument : String) : Except UsageError Step :=
  match s.pending with
  | .expected => .ok (.more { s with pending := .given argument })
  | _ => .error .unknownArgument

def step (s : CommandLine) (argument : String) : Except UsageError Step :=
  match argument.toList with
  | '-' :: '-' :: rest => s.long rest
  | ['-'] => s.plain argument
  | '-' :: rest => s.short rest
  | _ => s.plain argument

/-- Reads the arguments from the next one on; behind two hyphens alone there must not be any. -/
def read (s : CommandLine) : List String → Except UsageError Command
  | [] => s.settle.map fun done => .serve done.config
  | argument :: rest =>
    if argument = "--" then
      if rest = [] then s.settle.map fun done => .serve done.config else .error .unknownArgument
    else
      match s.step argument with
      | .ok (.more next) => next.read rest
      | .ok (.stop command) => .ok command
      | .error e => .error e

/-- The command of the arguments behind the program's name. -/
def parse (arguments : List String) : Except UsageError Command := read ⟨none, .none⟩ arguments

def versionText : String := "hangard 0.1.0"

def helpText : String :=
  "\n".intercalate [
    "hangar - file revisioning backend for engineering documents",
    "",
    "Usage: hangard [OPTIONS]",
    "",
    "Options:",
    "  -c, --config <CONFIG>  Path to configuration file [env: HANGAR_CONFIG=] [default: config/server.toml]",
    "  -h, --help             Print help",
    "  -V, --version          Print version"]

end CommandLine

end Depot
