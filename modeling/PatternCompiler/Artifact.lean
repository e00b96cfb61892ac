import PatternCompiler.Flags
import PatternCompiler.Json.Writer
import PatternCompiler.Pattern.Codec
import PatternCompiler.Pattern.Feature

/-!
Artifacts: serialised outcomes of parsing and of compiling.
-/

set_option autoImplicit false
set_option relaxedAutoImplicit false

namespace PatternCompiler

namespace Flags

def encode (flags : Flags) : Json :=
  .obj [("ignoreCase", .bool flags.ignoreCase), ("multiline", .bool flags.multiline),
    ("dotAll", .bool flags.dotAll), ("unicode", .bool flags.unicode),
    ("extended", .bool flags.extended)]

def decode (value : Json) : Option Flags := do
  let fields ← value.asRecord? ["ignoreCase", "multiline", "dotAll", "unicode", "extended"]
  return {
    ignoreCase := ← Json.required "ignoreCase" Json.asBool? fields
    multiline := ← Json.required "multiline" Json.asBool? fields
    dotAll := ← Json.required "dotAll" Json.asBool? fields
    unicode := ← Json.required "unicode" Json.asBool? fields
    extended := ← Json.required "extended" Json.asBool? fields }

end Flags

/-- The outcome of parsing: flags and tree, with room for findings that are not fatal. -/
structure ParseArtifact where
  version : String := "1.0.0"
  flags : Flags
  root : Pattern
  warnings : List String := []
  errors : List String := []

namespace ParseArtifact

def encode (a : ParseArtifact) : Json :=
  .obj [("version", .str a.version), ("flags", a.flags.encode), ("root", a.root.encode .parsed),
    ("warnings", .arr (a.warnings.map .str)), ("errors", .arr (a.errors.map .str))]

/-- The artifact that a value denotes; `warnings` and `errors` may be missing. -/
def decode (value : Json) : Option ParseArtifact := do
  let fields ← value.asRecord? ["version", "flags", "root", "warnings", "errors"]
  return {
    version := ← Json.required "version" Json.asString? fields
    flags := ← Json.required "flags" Flags.decode fields
    root := ← Json.required "root" (Pattern.decode .parsed) fields
    warnings := ← Json.defaulted "warnings" [] (Json.asList? Json.asString?) fields
    errors := ← Json.defaulted "errors" [] (Json.asList? Json.asString?) fields }

end ParseArtifact

def Feature.decode (value : Json) : Option Feature :=
  value.asString?.bind Feature.ofName?

/-- The outcome of compiling: the normal form and the features it uses. -/
structure CompileArtifact where
  root : Pattern
  features : List Feature

namespace CompileArtifact

def encode (a : CompileArtifact) : Json :=
  .obj [("ir", a.root.encode .compiled),
    ("metadata", .obj [("features_used", .arr (a.features.map fun f => .str f.name))])]

def decodeFeatures (value : Json) : Option (List Feature) := do
  let fields ← value.asRecord? ["features_used"]
  Json.required "features_used" (Json.asList? Feature.decode) fields

def decode (value : Json) : Option CompileArtifact := do
  let fields ← value.asRecord? ["ir", "metadata"]
  let root ← Json.required "ir" (Pattern.decode .compiled) fields
  return ⟨root, ← Json.required "metadata" decodeFeatures fields⟩

end CompileArtifact

inductive Artifact
  | parsed (artifact : ParseArtifact)
  | compiled (artifact : CompileArtifact)

namespace Artifact

def encode : Artifact → Json
  | .parsed artifact => artifact.encode
  | .compiled artifact => artifact.encode

/-- The artifact that a value denotes: an object with a field `ir` is the outcome of compiling, and
anything else that of parsing. -/
def decode (value : Json) : Option Artifact :=
  let isCompiled :=
    match value with
    | .obj fields => (Json.lookup "ir" fields).isSome
    | _ => false
  if isCompiled then .compiled <$> CompileArtifact.decode value
  else .parsed <$> ParseArtifact.decode value

end Artifact

end PatternCompiler
