import PatternCompiler.Pattern.Basic

/-!
Features of a pattern that not every regular expression engine supports, reported for the sake of
capability checks.
-/

set_option autoImplicit false
set_option relaxedAutoImplicit false

namespace PatternCompiler

inductive Feature
  | atomicGroup | backreference | lookahead | lookbehind | namedGroup
  | possessiveQuantifier | unicodeProperty
  deriving DecidableEq

namespace Feature

def all : List Feature :=
  [.atomicGroup, .backreference, .lookahead, .lookbehind, .namedGroup, .possessiveQuantifier,
    .unicodeProperty]

def name : Feature → String
  | .atomicGroup => "atomic_group"
  | .backreference => "backreference"
  | .lookahead => "lookahead"
  | .lookbehind => "lookbehind"
  | .namedGroup => "named_group"
  | .possessiveQuantifier => "possessive_quantifier"
  | .unicodeProperty => "unicode_property"

def logName : Feature → String
  | .atomicGroup => "AtomicGroup"
  | .backreference => "Backreference"
  | .lookahead => "Lookahead"
  | .lookbehind => "Lookbehind"
  | .namedGroup => "NamedGroup"
  | .possessiveQuantifier => "PossessiveQuantifier"
  | .unicodeProperty => "UnicodeProperty"

def ofName? (name : String) : Option Feature :=
  all.find? fun feature => feature.name == name

theorem ofName?_name (f : Feature) : ofName? f.name = some f := by
  cases f <;> decide

end Feature

def ClassItem.isProperty : ClassItem → Bool
  | .shorthand kind _ => kind.isProperty
  | _ => false

namespace Pattern

/-- Whether the outermost construct of a tree is itself a use of a feature. -/
def shows (feature : Feature) : Pattern → Bool
  | .group _ _ name atomic =>
      (feature == .atomicGroup && atomic) || (feature == .namedGroup && name.isSome)
  | .repetition _ _ _ greed => feature == .possessiveQuantifier && greed == .possessive
  | .look direction _ _ =>
      match direction with
      | .ahead => feature == .lookahead
      | .behind => feature == .lookbehind
  | .backreference .. => feature == .backreference
  | .charClass _ items => feature == .unicodeProperty && items.any ClassItem.isProperty
  | .alternation _ | .sequence _ | .literal _ | .anyChar | .anchor _ => false

mutual

def uses (feature : Feature) : Pattern → Bool
  | .alternation branches => usesAny feature branches
  | .sequence parts => usesAny feature parts
  | .repetition body least most greed =>
      shows feature (.repetition body least most greed) || uses feature body
  | .group capturing body name atomic =>
      shows feature (.group capturing body name atomic) || uses feature body
  | .look direction negative body =>
      shows feature (.look direction negative body) || uses feature body
  | .literal _ => false
  | .anyChar => false
  | .anchor _ => false
  | .charClass negated items => shows feature (.charClass negated items)
  | .backreference index name => shows feature (.backreference index name)

def usesAny (feature : Feature) : List Pattern → Bool
  | [] => false
  | p :: ps => uses feature p || usesAny feature ps

end

def features (p : Pattern) : List Feature :=
  Feature.all.filter fun feature => uses feature p

end Pattern

end PatternCompiler
