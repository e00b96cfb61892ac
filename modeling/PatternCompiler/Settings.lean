import PatternCompiler.Pattern.Describe
import PatternCompiler.Settings.Toml

/-!
The settings of the program. They are given in layers, each of which names only what it changes;
scalars are read leniently, so that a switch may be given as a word or a number.
-/

set_option autoImplicit false
set_option relaxedAutoImplicit false

namespace PatternCompiler

inductive DiagnosticFormat
  | text | json | lsp
  deriving DecidableEq

namespace DiagnosticFormat

def name : DiagnosticFormat → String
  | .text => "text"
  | .json => "json"
  | .lsp => "lsp"

def logName : DiagnosticFormat → String
  | .text => "Text"
  | .json => "Json"
  | .lsp => "Lsp"

def ofName? (name : String) : Option DiagnosticFormat :=
  [text, json, lsp].find? fun format => format.name == name.toLower

end DiagnosticFormat

structure EmitSettings where
  target : String := "pcre2"
  flagsPrefix : Bool := true
  deriving DecidableEq

structure DiagnosticSettings where
  format : DiagnosticFormat := .text
  hints : Bool := true
  deriving DecidableEq

structure ArtifactSettings where
  pretty : Bool := true
  includeFeatures : Bool := true
  deriving DecidableEq

structure Settings where
  emit : EmitSettings := {}
  diagnostics : DiagnosticSettings := {}
  artifact : ArtifactSettings := {}
  deriving DecidableEq

namespace Setting

/-- The switch that a scalar denotes: a word, or a number that is zero or not. -/
def asBool? : Setting → Option Bool
  | .bool b => some b
  | .int n => some (n != 0)
  | .real r => some !r.isZero
  | .text s =>
      if s.toLower ∈ ["1", "true", "on", "yes"] then some true
      else if s.toLower ∈ ["0", "false", "off", "no"] then some false
      else none
  | _ => none

def asText? : Setting → Option String
  | .bool b => some (Describe.bool b)
  | .int n => some (Int.repr n)
  | .real r => some r.text
  | .text s => some s
  | _ => none

/-- The format that a name denotes, or a table with a name as its only key. -/
def asFormat? : Setting → Option DiagnosticFormat
  | .text s => DiagnosticFormat.ofName? s
  | .table [(key, _)] => DiagnosticFormat.ofName? key
  | _ => none

/-- The two values of a section: those of its keys, or the first two of a list. -/
def pair? (first second : String) : Setting → Option (Setting × Setting)
  | .table entries => some ((Setting.table entries).get first, (Setting.table entries).get second)
  | .list (a :: b :: _) => some (a, b)
  | _ => none

end Setting

namespace Settings

def encode (s : Settings) : Setting :=
  .table [
    ("emit", .table [("target", .text s.emit.target), ("flags_prefix", .bool s.emit.flagsPrefix)]),
    ("diagnostics",
      .table [("format", .text s.diagnostics.format.name), ("hints", .bool s.diagnostics.hints)]),
    ("artifact",
      .table [("pretty", .bool s.artifact.pretty),
        ("include_features", .bool s.artifact.includeFeatures)])]

def decode (value : Setting) : Option Settings := do
  let (target, flagsPrefix) ← (value.get "emit").pair? "target" "flags_prefix"
  let (format, hints) ← (value.get "diagnostics").pair? "format" "hints"
  let (pretty, includeFeatures) ← (value.get "artifact").pair? "pretty" "include_features"
  return {
    emit := ⟨← target.asText?, ← flagsPrefix.asBool?⟩
    diagnostics := ⟨← format.asFormat?, ← hints.asBool?⟩
    artifact := ⟨← pretty.asBool?, ← includeFeatures.asBool?⟩ }

/-- A settings file: its text, if it exists, and whether it may be missing. -/
structure Layer where
  text? : Option (List Char)
  optional : Bool := false

/-- Lays a file over the settings so far. A byte order mark of the file does not belong to the
document in it. -/
def overlayFile (base : Setting) (layer : Layer) : Option Setting :=
  match layer.text? with
  | none => if layer.optional then some base else none
  | some text => (Toml.parse (Toml.dropMark text)).map base.overlayLayer

/-- Lays a single value over the settings so far, at the place that a path spells. -/
def overlayValue (base : Setting) (entry : String × Setting) : Option Setting :=
  (Setting.path? entry.1).map (base.overlayAt entry.2)

/-- The settings of files stacked in order over the defaults, and of single values over those. -/
def load (layers : List Layer) (overrides : List (String × Setting) := []) : Option Settings := do
  let base ← layers.foldlM overlayFile ({} : Settings).encode
  decode (← overrides.foldlM overlayValue base)

def describe (s : Settings) : String :=
  Describe.fields "StrlingConfig" [
    ("emit", Describe.fields "EmitConfig"
      [("target", Text.quote s.emit.target), ("flags_prefix", Describe.bool s.emit.flagsPrefix)]),
    ("diagnostics", Describe.fields "DiagnosticsConfig"
      [("format", s.diagnostics.format.logName), ("hints", Describe.bool s.diagnostics.hints)]),
    ("artifact", Describe.fields "ArtifactConfig"
      [("pretty", Describe.bool s.artifact.pretty),
        ("include_features", Describe.bool s.artifact.includeFeatures)])]

end Settings

end PatternCompiler
