import PatternCompiler.Editor
import PatternCompiler.Log
import PatternCompiler.Settings

/-!
What the program prints: the emitted pattern, an artifact or a report on errors as JSON, or a parse
error in the chosen format.
-/

set_option autoImplicit false
set_option relaxedAutoImplicit false

namespace PatternCompiler

inductive Mode
  | emit | artifact | ir | diagnostics
  deriving DecidableEq

def Mode.name : Mode → String
  | .emit => "Emit"
  | .artifact => "Artifact"
  | .ir => "Ir"
  | .diagnostics => "Diagnostics"

namespace Diagnostic

def applying (settings : DiagnosticSettings) (d : Diagnostic) : Diagnostic :=
  if settings.hints then d else d.withoutHint

def encode (d : Diagnostic) : Json :=
  let place := d.location
  .obj ([("message", .str d.message), ("pos", .nat d.pos), ("line", .nat place.line),
    ("column", .nat place.column)] ++ Json.optionalField "hint" .str d.hint)

def render (settings : DiagnosticSettings) (d : Diagnostic) : String :=
  let d := d.applying settings
  match settings.format with
  | .text => d.format
  | .json => d.encode.render true
  | .lsp => d.toEditor.render true

end Diagnostic

namespace Report

def emit (settings : Settings) (text : String) : Except Diagnostic String :=
  (Stage.parse.andThen Stage.normalize).andThen (Stage.emit settings.emit.flagsPrefix) text

def artifact (settings : Settings) (text : String) : Except Diagnostic String :=
  (parseArtifact text).map fun a => a.encode.render settings.artifact.pretty

/-- The artifact of compiling as JSON; its features are left out if so chosen. -/
def ir (settings : Settings) (text : String) : Except Diagnostic String :=
  (compileArtifact text).map fun a =>
    let features := if settings.artifact.includeFeatures then a.features else []
    ({ a with features := features } : CompileArtifact).encode.render settings.artifact.pretty

def diagnostics (settings : Settings) (text : String) : Bool × String :=
  let found :=
    match parse text with
    | .ok _ => []
    | .error d => [(d.applying settings.diagnostics).toEditor]
  let report : Json :=
    .obj [("success", .bool found.isEmpty), ("diagnostics", .arr found), ("version", .str "1.0.0")]
  (found.isEmpty, report.render settings.artifact.pretty)

/-- What a mode prints, and whether the text was free of errors; a parse error is a diagnostic,
unless it is what the mode reports on. -/
def ofMode (settings : Settings) (text : String) : Mode → Except Diagnostic (Bool × String)
  | .emit => (emit settings text).map (true, ·)
  | .artifact => (artifact settings text).map (true, ·)
  | .ir => (ir settings text).map (true, ·)
  | .diagnostics => .ok (diagnostics settings text)

def log (settings : Settings) (text : String) : Mode → List LogEntry
  | .emit =>
      Log.ofParse text ++
        match emit settings text with
        | .ok pattern => Log.ofEmission pattern
        | .error _ => []
  | .ir => Log.ofArtifact text
  | .artifact | .diagnostics => Log.ofParse text

end Report

end PatternCompiler
