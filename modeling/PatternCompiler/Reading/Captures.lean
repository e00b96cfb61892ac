import PatternCompiler.Fault
import PatternCompiler.Pattern.Basic

/-!
Groups as they open: the forms of a group's opening, and the table of the capturing groups opened
so far. Capturing groups, named or not, are numbered by the order of their opening, in 32 bits:
after the last number the counter starts again from zero.
-/

set_option autoImplicit false
set_option relaxedAutoImplicit false

namespace PatternCompiler

/-- The capturing groups opened so far: their counter, and the names given, in opening order. -/
structure Captures where
  counter : UInt32 := 0
  names : List String := []
  deriving DecidableEq

def Captures.count (captures : Captures) : Nat :=
  captures.counter.toNat

inductive Opening
  | capture
  | named (name : String)
  | plain
  | atomic
  | look (direction : Direction) (negative : Bool)
  deriving DecidableEq

namespace Opening

def bracket : Opening → Bracket
  | .capture | .named _ | .plain => .group
  | .atomic => .atomicGroup
  | .look .ahead _ => .lookahead
  | .look .behind _ => .lookbehind

def close (body : Pattern) : Opening → Pattern
  | .capture => .group true body none false
  | .named name => .group true body (some name) false
  | .plain => .group false body none false
  | .atomic => .group false body none true
  | .look direction negative => .look direction negative body

end Opening

def Captures.enter (captures : Captures) : Opening → Captures
  | .capture => { captures with counter := captures.counter + 1 }
  | .named name => ⟨captures.counter + 1, captures.names ++ [name]⟩
  | .plain | .atomic | .look .. => captures

/-- Whether a name is an ASCII letter or underscore followed by letters, digits and underscores. -/
def isIdentifier : List Char → Bool
  | [] => false
  | c :: rest => (c.isAlpha || c == '_') && rest.all fun c => c.isAlphanum || c == '_'

end PatternCompiler
