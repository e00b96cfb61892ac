import PatternCompiler.Compile
import PatternCompiler.Pattern.Describe

/-!
Log entries of the stages that a source text passes through. Logging is a view of a stage's
outcome; no stage depends on it.
-/

set_option autoImplicit false
set_option relaxedAutoImplicit false

namespace PatternCompiler

inductive LogLevel
  | debug | trace
  deriving DecidableEq

def LogLevel.name : LogLevel → String
  | .debug => "DEBUG"
  | .trace => "TRACE"

/-- One log entry: its level, the stage it is from, and its text. -/
structure LogEntry where
  level : LogLevel
  target : String
  text : String
  deriving DecidableEq

def Flags.describe (flags : Flags) : String :=
  Describe.fields "Flags"
    [("ignore_case", Describe.bool flags.ignoreCase), ("multiline", Describe.bool flags.multiline),
      ("dot_all", Describe.bool flags.dotAll), ("unicode", Describe.bool flags.unicode),
      ("extended", Describe.bool flags.extended)]

namespace Log

def ofHeader (text : String) : List LogEntry :=
  let entry := LogEntry.mk .debug "strling_core::strling::flags"
  let outcome := Header.read text.toList
  let skipped := outcome.unknown.map fun directive =>
    entry ("skipping unknown directive line " ++ Text.quote (String.ofList directive))
  skipped ++
    match outcome.result with
    | .error _ => []
    | .ok ending =>
        match Header.lateDirective? 0 ending.body with
        | some _ => []
        | none =>
            [entry ("preprocessed directives: flags=" ++ ending.flags.describe ++
              ", body starts at char " ++ Nat.repr ending.length)]

def ofReading (outcome : Reading.Outcome) : List LogEntry :=
  let target := "strling_core::strling::parsing::parser"
  let braces := outcome.looseBraces.map fun pos =>
    LogEntry.mk .trace target
      ("'\x7b' at " ++ Nat.repr pos ++ " is not a quantifier, read as literal")
  braces ++
    match outcome.result with
    | .error _ => []
    | .ok _ =>
        [⟨.debug, target, "parsed " ++ Nat.repr outcome.cursor.size ++ " chars, " ++
          Nat.repr outcome.captures.count ++ " capturing group(s)"⟩]

def ofParse (text : String) : List LogEntry :=
  ofHeader text ++
    match Source.ofText text with
    | .error _ => []
    | .ok source => ofReading (Parser.ofSource source).read

def ofEmission (text : String) : List LogEntry :=
  [⟨.debug, "strling_core::strling::emitters::pcre2",
    "emitted " ++ Nat.repr text.utf8ByteSize ++ " chars of PCRE2"⟩]

/-- The entries for compiling to a normal form and listing its features. -/
def ofCompilation (root : Pattern) (features : List Feature) : List LogEntry :=
  let entry := LogEntry.mk .debug "strling_core::strling::compiler"
  [entry ("compiled IR root: " ++ root.kind),
    entry ("features used: " ++ Describe.list (features.map Feature.logName))]

def ofPcre2 (text : String) : List LogEntry :=
  ofParse text ++
    match toPcre2 text with
    | .error _ => []
    | .ok pattern => ofEmission pattern

def ofArtifact (text : String) : List LogEntry :=
  ofParse text ++
    match compileArtifact text with
    | .error _ => []
    | .ok artifact => ofCompilation artifact.root artifact.features

end Log

end PatternCompiler
