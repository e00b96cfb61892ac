import PatternCompiler.Pattern.Basic

/-!
Normalisation: nested sequences and alternations are flattened into their parent, neighbouring
literals of a sequence are fused, and a sequence or alternation of one member is that member.
-/

set_option autoImplicit false
set_option relaxedAutoImplicit false

namespace PatternCompiler.Pattern

def partsInSequence : Pattern → List Pattern
  | .sequence parts => parts
  | p => [p]

def branchesInAlternation : Pattern → List Pattern
  | .alternation branches => branches
  | p => [p]

def literalRun (run : String) : List Pattern :=
  if run = "" then [] else [.literal run]

/-- Fuses each run of neighbouring literals, `run` being the text of the run read so far. -/
def fuseLiterals (run : String) : List Pattern → List Pattern
  | [] => literalRun run
  | .literal text :: rest => fuseLiterals (run ++ text) rest
  | p :: rest => literalRun run ++ p :: fuseLiterals "" rest

mutual

def normalize : Pattern → Pattern
  | .sequence parts =>
      collapse .sequence (fuseLiterals "" ((normalizeAll parts).flatMap partsInSequence))
  | .alternation branches =>
      collapse .alternation ((normalizeAll branches).flatMap branchesInAlternation)
  | .repetition body least most greed => .repetition (normalize body) least most greed
  | .group capturing body name atomic => .group capturing (normalize body) name atomic
  | .look direction negative body => .look direction negative (normalize body)
  | .literal text => .literal text
  | .anyChar => .anyChar
  | .anchor place => .anchor place
  | .charClass negated items => .charClass negated items
  | .backreference index name => .backreference index name

def normalizeAll : List Pattern → List Pattern
  | [] => []
  | p :: ps => normalize p :: normalizeAll ps

end

end PatternCompiler.Pattern
