import PatternCompiler.Artifact
import PatternCompiler.Pattern.Normal
import PatternCompiler.Pattern.Pcre2
import PatternCompiler.Source

/-!
The compiler as a composition of stages: a source text is parsed, its tree normalised, and the
normal form written as PCRE2. Only parsing can fail.
-/

set_option autoImplicit false
set_option relaxedAutoImplicit false

namespace PatternCompiler

structure FlaggedPattern where
  flags : Flags
  root : Pattern

abbrev Stage (α β : Type) : Type :=
  α → Except Diagnostic β

namespace Stage

variable {α β γ : Type}

/-- One stage after another; a diagnostic of the first is the answer of both. -/
def andThen (first : Stage α β) (second : Stage β γ) : Stage α γ :=
  fun a => (first a).bind second

def pure (f : α → β) : Stage α β :=
  fun a => .ok (f a)

def parse : Stage String FlaggedPattern :=
  fun text =>
    match Source.ofText text with
    | .error d => .error d
    | .ok source => source.parse.map fun root => ⟨source.flags, root⟩

def normalize : Stage FlaggedPattern FlaggedPattern :=
  pure fun p => { p with root := p.root.normalize }

def emit (withFlags : Bool) : Stage FlaggedPattern String :=
  pure fun p => String.ofList (Pcre2.emit withFlags p.flags p.root)

/-- Refuses trees whose outermost construct is of one of the given kinds. The diagnostic is bare and
points at the number of those kinds. -/
def reject (kinds : List String) : Stage FlaggedPattern FlaggedPattern :=
  fun p =>
    if p.root.kind ∈ kinds then .error { message := "rejected " ++ p.root.kind, pos := kinds.length }
    else .ok p

end Stage

def parse (text : String) : Except Diagnostic FlaggedPattern :=
  Stage.parse text

def compile (text : String) : Except Diagnostic FlaggedPattern :=
  Stage.parse.andThen Stage.normalize text

def toPcre2 (text : String) : Except Diagnostic String :=
  (Stage.parse.andThen Stage.normalize).andThen (Stage.emit true) text

def Pattern.normalizeRounds : Nat → Pattern → Pattern
  | 0, p => p
  | rounds + 1, p => normalizeRounds rounds p.normalize

def parseArtifact (text : String) : Except Diagnostic ParseArtifact :=
  (parse text).map fun p => { flags := p.flags, root := p.root }

def CompileArtifact.ofPattern (p : Pattern) : CompileArtifact :=
  ⟨p.normalize, p.normalize.features⟩

def compileArtifact (text : String) : Except Diagnostic CompileArtifact :=
  (parse text).map fun p => .ofPattern p.root

inductive Target
  | pcre2
  deriving DecidableEq

def Target.name : Target → String
  | .pcre2 => "pcre2"

def Target.ofName? (name : String) : Option Target :=
  if name = Target.pcre2.name then some .pcre2 else none

def Target.emit : Target → Flags → Pattern → String
  | .pcre2, flags, p => String.ofList (Pcre2.emit true flags p)

end PatternCompiler
