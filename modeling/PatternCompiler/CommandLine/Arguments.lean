import PatternCompiler.Report

/-!
The arguments of the command line. They are read from left to right; what asks for help or for the
version answers at once, and so does an argument that cannot stand where it does.
-/

set_option autoImplicit false
set_option relaxedAutoImplicit false

namespace PatternCompiler.CommandLine

structure Arguments where
  path : Option String := none
  modes : List Mode := []
  config : Option String := none
  verbose : Bool := false
  deriving DecidableEq

inductive Stop
  | help | version | misuse
  deriving DecidableEq

/-- The arguments read so far, whether the next one must be the name of a settings file, and whether
all further ones are paths. -/
structure Progress where
  arguments : Arguments := {}
  awaitsFile : Bool := false
  optionsEnded : Bool := false

namespace Progress

def takePath (p : Progress) (path : String) : Except Stop Progress :=
  match p.arguments.path with
  | some _ => .error .misuse
  | none => .ok { p with arguments := { p.arguments with path := some path } }

def takeConfig (p : Progress) (file : String) : Except Stop Progress :=
  match p.arguments.config with
  | some _ => .error .misuse
  | none =>
      .ok { p with arguments := { p.arguments with config := some file }, awaitsFile := false }

def takeMode (p : Progress) (mode : Mode) : Except Stop Progress :=
  if mode ∈ p.arguments.modes then .error .misuse
  else .ok { p with arguments := { p.arguments with modes := p.arguments.modes ++ [mode] } }

def takeVerbose (p : Progress) : Except Stop Progress :=
  if p.arguments.verbose then .error .misuse
  else .ok { p with arguments := { p.arguments with verbose := true } }

def takeLong (p : Progress) (option : List Char) : Except Stop Progress :=
  let name := String.ofList (option.takeWhile (· != '='))
  match option.dropWhile (· != '=') with
  | [] =>
      match name with
      | "emit" => p.takeMode .emit
      | "artifact" => p.takeMode .artifact
      | "ir" => p.takeMode .ir
      | "diagnostics" => p.takeMode .diagnostics
      | "verbose" => p.takeVerbose
      | "config" => .ok { p with awaitsFile := true }
      | "help" => .error .help
      | "version" => .error .version
      | _ => .error .misuse
  | _ :: value =>
      if name = "config" then p.takeConfig (String.ofList value) else .error .misuse

def takeShort (p : Progress) : List Char → Except Stop Progress
  | [] => .ok p
  | 'v' :: rest =>
      match p.takeVerbose with
      | .ok p => takeShort p rest
      | .error stop => .error stop
  | 'h' :: _ => .error .help
  | 'V' :: _ => .error .version
  | ['c'] => .ok { p with awaitsFile := true }
  | 'c' :: '=' :: file => p.takeConfig (String.ofList file)
  | 'c' :: file => p.takeConfig (String.ofList file)
  | _ => .error .misuse

/-- Takes one argument. A single dash is a path or a file name, not an option. -/
def take (p : Progress) (argument : String) : Except Stop Progress :=
  if p.optionsEnded then p.takePath argument
  else if p.awaitsFile then
    match argument.toList with
    | '-' :: _ :: _ => .error .misuse
    | _ => p.takeConfig argument
  else
    match argument.toList with
    | ['-', '-'] => .ok { p with optionsEnded := true }
    | '-' :: '-' :: option => p.takeLong option
    | '-' :: c :: rest => p.takeShort (c :: rest)
    | _ => p.takePath argument

/-- The arguments once all are taken: no file name may be outstanding, and modes exclude each
other. -/
def finish (p : Progress) : Except Stop Arguments :=
  if p.awaitsFile || decide (1 < p.arguments.modes.length) then .error .misuse
  else .ok p.arguments

end Progress

def Arguments.parse (arguments : List String) : Except Stop Arguments :=
  (arguments.foldlM Progress.take {}).bind Progress.finish

def Arguments.mode (a : Arguments) : Mode :=
  a.modes.headD .emit

def versionText : String :=
  "strling 0.1.0\n"

def helpText : String :=
  "Compile STRling patterns to PCRE2 regular expressions\n\n" ++
  "Usage: strling [OPTIONS] [path]\n\n" ++
  "Arguments:\n" ++
  "  [path]  Pattern file to compile ('-' or omitted reads stdin)\n\n" ++
  "Options:\n" ++
  "      --emit           Print the PCRE2 pattern (default)\n" ++
  "      --artifact       Print the compilation artifact (flags and AST) as JSON\n" ++
  "      --ir             Print the normalised IR and the features it uses as JSON\n" ++
  "      --diagnostics    Print LSP diagnostics as JSON\n" ++
  "  -c, --config <FILE>  Configuration file layered over the defaults\n" ++
  "  -v, --verbose        Log pipeline stages to stderr\n" ++
  "  -h, --help           Print help\n" ++
  "  -V, --version        Print version\n"

end PatternCompiler.CommandLine
