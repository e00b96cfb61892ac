/-!
Sets of characters given by closed ranges of code points, the form in which the Unicode
properties used by this library are tabulated.
-/

set_option autoImplicit false
set_option relaxedAutoImplicit false

namespace PatternCompiler.Text

/-- A closed range of code points, every `step`-th of which belongs to a set. -/
structure Stride where
  first : Nat
  last : Nat
  step : Nat := 1
  deriving DecidableEq

/-- A code point belongs to a stride when it lies in the range and on the stride's grid. -/
def Stride.contains (s : Stride) (n : Nat) : Bool :=
  decide (s.first ≤ n) && decide (n ≤ s.last) && (n - s.first) % s.step == 0

def inRanges (ranges : List (Nat × Nat)) (c : Char) : Bool :=
  ranges.any fun range => decide (range.1 ≤ c.toNat) && decide (c.toNat ≤ range.2)

def inStrides (strides : List Stride) (c : Char) : Bool :=
  strides.any fun stride => stride.contains c.toNat

end PatternCompiler.Text
