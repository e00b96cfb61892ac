/-!
Pattern trees: what a source text denotes, and what the compiler rewrites and prints. One tree
type serves both the syntax tree that reading yields and the form that is normalised and emitted;
the two differ only in the name of the tag under which they are serialised.
-/

set_option autoImplicit false
set_option relaxedAutoImplicit false

namespace PatternCompiler

/-- A place in the subject that an assertion without width may demand. -/
inductive Anchor
  | lineStart | lineEnd | wordBoundary | notWordBoundary
  | absoluteStart | endBeforeFinalNewline | absoluteEnd
  deriving DecidableEq

/-- How eagerly a repetition takes further copies of its body. -/
inductive Greed
  | greedy | lazy | possessive
  deriving DecidableEq

/-- The side of the current place that a lookaround inspects. -/
inductive Direction
  | ahead | behind
  deriving DecidableEq

/-- The largest number of copies that a repetition takes. -/
inductive Bound
  | finite (count : UInt32)
  | unbounded
  deriving DecidableEq

/-- The families of characters that a single escape letter names. -/
inductive Family
  | digit | word | space | property
  deriving DecidableEq

/-- A class escape: a family of characters or its complement. -/
structure Shorthand where
  family : Family
  negated : Bool := false
  deriving DecidableEq

/-- The letter of a class escape; the complement of a family takes the capital. -/
def Shorthand.letter : Shorthand → Char
  | ⟨.digit, false⟩ => 'd'
  | ⟨.digit, true⟩ => 'D'
  | ⟨.word, false⟩ => 'w'
  | ⟨.word, true⟩ => 'W'
  | ⟨.space, false⟩ => 's'
  | ⟨.space, true⟩ => 'S'
  | ⟨.property, false⟩ => 'p'
  | ⟨.property, true⟩ => 'P'

def Shorthand.ofLetter? : Char → Option Shorthand
  | 'd' => some ⟨.digit, false⟩
  | 'D' => some ⟨.digit, true⟩
  | 'w' => some ⟨.word, false⟩
  | 'W' => some ⟨.word, true⟩
  | 's' => some ⟨.space, false⟩
  | 'S' => some ⟨.space, true⟩
  | 'p' => some ⟨.property, false⟩
  | 'P' => some ⟨.property, true⟩
  | _ => none

def Shorthand.isProperty (s : Shorthand) : Bool :=
  s.family == .property

def Shorthand.negate (s : Shorthand) : Shorthand :=
  { s with negated := !s.negated }

theorem Shorthand.ofLetter?_letter (s : Shorthand) : ofLetter? s.letter = some s := by
  rcases s with ⟨family, negated⟩
  cases family <;> cases negated <;> rfl

inductive ClassItem
  | char (c : Char)
  | range (first last : Char)
  | shorthand (kind : Shorthand) (property : Option String)
  deriving DecidableEq

/-- A pattern tree. Trees that no source text denotes are representable too, since trees are also
read from their serialised form. -/
inductive Pattern
  | alternation (branches : List Pattern)
  | sequence (parts : List Pattern)
  | literal (text : String)
  | anyChar
  | anchor (place : Anchor)
  | charClass (negated : Bool) (items : List ClassItem)
  | repetition (body : Pattern) (least : UInt32) (most : Bound) (greed : Greed)
  | group (capturing : Bool) (body : Pattern) (name : Option String) (atomic : Bool)
  | backreference (index : Option UInt32) (name : Option String)
  | look (direction : Direction) (negative : Bool) (body : Pattern)

namespace Pattern

/-- The name of a tree's outermost construct, as artifacts and messages spell it. -/
def kind : Pattern → String
  | .alternation _ => "Alt"
  | .sequence _ => "Seq"
  | .literal _ => "Lit"
  | .anyChar => "Dot"
  | .anchor _ => "Anchor"
  | .charClass .. => "CharClass"
  | .repetition .. => "Quant"
  | .group .. => "Group"
  | .backreference .. => "Backref"
  | .look .. => "Look"

def children : Pattern → List Pattern
  | .alternation branches => branches
  | .sequence parts => parts
  | .repetition body .. => [body]
  | .group _ body _ _ => [body]
  | .look _ _ body => [body]
  | .literal _ | .anyChar | .anchor _ | .charClass .. | .backreference .. => []

def isAnchor : Pattern → Bool
  | .anchor _ => true
  | _ => false

def groupName? : Pattern → Option String
  | .group _ _ name _ => name
  | _ => none

/-- A single member stands for itself; any other number of them is rebuilt. -/
def collapse (rebuild : List Pattern → Pattern) : List Pattern → Pattern
  | [p] => p
  | ps => rebuild ps

def ofShorthand (kind : Shorthand) (property : Option String) : Pattern :=
  .charClass false [.shorthand kind property]

mutual

def same : Pattern → Pattern → Bool
  | .alternation bs, .alternation bs' => sameAll bs bs'
  | .sequence ps, .sequence ps' => sameAll ps ps'
  | .literal t, .literal t' => t == t'
  | .anyChar, .anyChar => true
  | .anchor a, .anchor a' => a == a'
  | .charClass n items, .charClass n' items' => n == n' && items == items'
  | .repetition b l m g, .repetition b' l' m' g' => same b b' && l == l' && m == m' && g == g'
  | .group c b n a, .group c' b' n' a' => c == c' && same b b' && n == n' && a == a'
  | .backreference i n, .backreference i' n' => i == i' && n == n'
  | .look d n b, .look d' n' b' => d == d' && n == n' && same b b'
  | _, _ => false

def sameAll : List Pattern → List Pattern → Bool
  | [], [] => true
  | p :: ps, q :: qs => same p q && sameAll ps qs
  | _, _ => false

end

end Pattern

end PatternCompiler
