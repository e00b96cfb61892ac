import PatternCompiler.Pattern.Basic

/-!
The names by which artifacts and messages call anchors, greeds, directions and class escapes.
-/

set_option autoImplicit false
set_option relaxedAutoImplicit false

namespace PatternCompiler

def Anchor.all : List Anchor :=
  [.lineStart, .lineEnd, .wordBoundary, .notWordBoundary, .absoluteStart, .endBeforeFinalNewline,
    .absoluteEnd]

def Anchor.name : Anchor → String
  | .lineStart => "Start"
  | .lineEnd => "End"
  | .wordBoundary => "WordBoundary"
  | .notWordBoundary => "NotWordBoundary"
  | .absoluteStart => "AbsoluteStart"
  | .endBeforeFinalNewline => "EndBeforeFinalNewline"
  | .absoluteEnd => "AbsoluteEnd"

def Anchor.ofName? (name : String) : Option Anchor :=
  all.find? fun place => place.name == name

def Greed.all : List Greed :=
  [.greedy, .lazy, .possessive]

def Greed.name : Greed → String
  | .greedy => "Greedy"
  | .lazy => "Lazy"
  | .possessive => "Possessive"

def Greed.ofName? (name : String) : Option Greed :=
  all.find? fun greed => greed.name == name

def Direction.name : Direction → String
  | .ahead => "Ahead"
  | .behind => "Behind"

def Direction.ofName? (name : String) : Option Direction :=
  [.ahead, .behind].find? fun direction => direction.name == name

def Shorthand.name (s : Shorthand) : String :=
  (if s.negated then "Not" else "") ++
    match s.family with
    | .digit => "Digit"
    | .word => "Word"
    | .space => "Space"
    | .property => "Property"

def Bound.text : Bound → String
  | .finite count => Nat.repr count.toNat
  | .unbounded => "Inf"

theorem Anchor.ofName?_name (a : Anchor) : ofName? a.name = some a := by
  cases a <;> decide

theorem Greed.ofName?_name (g : Greed) : ofName? g.name = some g := by
  cases g <;> decide

theorem Direction.ofName?_name (d : Direction) : ofName? d.name = some d := by
  cases d <;> decide

end PatternCompiler
