import PatternCompiler.CommandLine.Arguments
import PatternCompiler.Text.Utf8

/-!
A run of the program as a function of its arguments, the files it may read and its standard input.
-/

set_option autoImplicit false
set_option relaxedAutoImplicit false

namespace PatternCompiler.CommandLine

inductive FileEntry
  | missing
  | directory
  | file (bytes : List UInt8)

structure Environment where
  files : String → FileEntry
  input : List UInt8

structure Outcome where
  code : Nat := 0
  output : String := ""
  errors : String := ""
  deriving DecidableEq

/-- How a run ends: with arguments it does not understand, with settings it cannot load, or
finished. -/
inductive Ending
  | misuse
  | misconfigured
  | finished (outcome : Outcome)
  deriving DecidableEq

inductive ReadFault
  | missing | directory | encoding
  deriving DecidableEq

def ReadFault.message : ReadFault → String
  | .missing => "No such file or directory (os error 2)"
  | .directory => "Is a directory (os error 21)"
  | .encoding => "stream did not contain valid UTF-8"

def dropFinalBreak (text : List Char) : List Char :=
  match text.reverse with
  | '\n' :: '\r' :: rest => rest.reverse
  | '\n' :: rest => rest.reverse
  | _ => text

def sourceOfBytes (bytes : List UInt8) : Except ReadFault String :=
  match Text.Utf8.decode? bytes with
  | some text => .ok (String.ofList (dropFinalBreak text))
  | none => .error .encoding

/-- Reads the source text from a file, or from the standard input if no path or a dash is given. -/
def Environment.readSource (env : Environment) (path : Option String) : Except ReadFault String :=
  if path.getD "-" = "-" then sourceOfBytes env.input
  else
    match env.files (path.getD "-") with
    | .missing => .error .missing
    | .directory => .error .directory
    | .file bytes => sourceOfBytes bytes

def localSettings : String := "strling.toml"

def settingsNames (name : String) : List String :=
  [name, name ++ ".toml"]

/-- The text of a settings file; bytes that are not valid UTF-8 do not make it unreadable. -/
def Environment.settingsText? (env : Environment) (name : String) : Option (List Char) :=
  (settingsNames name).findSome? fun name =>
    match env.files name with
    | .file bytes => some (Text.Utf8.decodeLossy bytes)
    | _ => none

/-- Loads the settings of the directory, and over them those of a file that must exist. -/
def Environment.settings? (env : Environment) (config : Option String) : Option Settings :=
  Settings.load (⟨env.settingsText? localSettings, true⟩ ::
    (config.map fun name => ⟨env.settingsText? name, false⟩).toList)

def logText (entries : List LogEntry) : String :=
  String.join ((entries.filter fun e => e.level == .debug).map fun e =>
    "[" ++ e.level.name ++ " " ++ e.target ++ "] " ++ e.text ++ "\n")

def report (settings : Settings) (text : String) (mode : Mode) : Outcome :=
  match Report.ofMode settings text mode with
  | .ok (clean, printed) => { code := if clean then 0 else 2, output := printed ++ "\n" }
  | .error d => { code := 2, errors := d.render settings.diagnostics ++ "\n" }

/-- Runs with loaded settings. The log entries stand before what the run itself reports. -/
def runWith (env : Environment) (arguments : Arguments) (settings : Settings) :
    List LogEntry × Outcome :=
  let entry := LogEntry.mk .debug "strling"
  let loaded := entry ("loaded configuration: " ++ settings.describe)
  match Target.ofName? settings.emit.target with
  | none =>
      ([loaded], { code := 1, errors := "Unsupported emit target '" ++ settings.emit.target ++
        "' (available: pcre2)\n" })
  | some _ =>
      match env.readSource arguments.path with
      | .error fault =>
          ([loaded], { code := 1, errors := "Error reading " ++ arguments.path.getD "stdin" ++
            ": " ++ fault.message ++ "\n" })
      | .ok text =>
          let running := entry ("running " ++ arguments.mode.name ++ " on " ++
            Nat.repr text.length ++ " chars")
          (loaded :: running :: Report.log settings text arguments.mode,
            report settings text arguments.mode)

def run (env : Environment) (arguments : List String) : Ending :=
  match Arguments.parse arguments with
  | .error .misuse => .misuse
  | .error .help => .finished { output := helpText }
  | .error .version => .finished { output := versionText }
  | .ok arguments =>
      match env.settings? arguments.config with
      | none => .misconfigured
      | some settings =>
          let (entries, outcome) := runWith env arguments settings
          let logged := if arguments.verbose then logText entries else ""
          .finished { outcome with errors := logged ++ outcome.errors }

def namesToRead (arguments : List String) : List String :=
  match Arguments.parse arguments with
  | .error _ => []
  | .ok arguments =>
      settingsNames localSettings ++ (arguments.config.map settingsNames).getD [] ++
        (arguments.path.filter (· != "-")).toList

def readsInput (arguments : List String) : Bool :=
  match Arguments.parse arguments with
  | .error _ => false
  | .ok arguments => arguments.path.getD "-" == "-"

end PatternCompiler.CommandLine
