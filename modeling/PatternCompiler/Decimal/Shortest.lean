/-!
Decimal numbers, and the shortest decimal that reads back as a given double. The candidates with
one digit, two digits and so on are the value's two neighbours on that decimal grid; the first grid
with a neighbour inside the interval of reals that round to the double wins.
-/

set_option autoImplicit false
set_option relaxedAutoImplicit false

namespace PatternCompiler

/-- The number `mantissa · 10 ^ exponent`, or its negative. -/
structure Decimal where
  negative : Bool := false
  mantissa : Nat
  exponent : Int := 0
  deriving DecidableEq

namespace Decimal

def toFloat (d : Decimal) : Float :=
  let size := Float.ofScientific d.mantissa (decide (d.exponent < 0)) d.exponent.natAbs
  if d.negative then -size else size

/-- The reals that round to a positive double, as fractions over one denominator: the double itself,
the ends of the interval, and whether the ends belong to it. -/
structure Interval where
  value : Nat
  low : Nat
  high : Nat
  denominator : Nat
  closed : Bool

/-- The interval of the double `mantissa · 2 ^ exponent`. Just above a power of two the lower
neighbour is half as far away. -/
def Interval.ofBinary (mantissa : Nat) (exponent : Int) (narrowBelow : Bool) : Interval :=
  let unit := Nat.pow 2 (exponent - 2).toNat
  { value := 4 * mantissa * unit
    low := (if narrowBelow then 4 * mantissa - 1 else 4 * mantissa - 2) * unit
    high := (4 * mantissa + 2) * unit
    denominator := Nat.pow 2 (2 - exponent).toNat
    closed := mantissa % 2 == 0 }

def Interval.contains (i : Interval) (count : Nat) (exponent : Int) : Bool :=
  let point := count * Nat.pow 10 exponent.toNat * i.denominator
  let scale := Nat.pow 10 (-exponent).toNat
  if i.closed then decide (i.low * scale ≤ point) && decide (point ≤ i.high * scale)
  else decide (i.low * scale < point) && decide (point < i.high * scale)

/-- The largest multiple of `10 ^ exponent` that is not above the value, and whether the next
multiple is at least as near. -/
def Interval.below (i : Interval) (exponent : Int) : Nat × Bool :=
  let step := Nat.pow 10 exponent.toNat * i.denominator
  let value := i.value * Nat.pow 10 (-exponent).toNat
  (value / step, decide (step ≤ 2 * (value % step)))

/-- The shortest decimal of an interval, on the grids from `10 ^ exponent` downwards. -/
def Interval.shortest (i : Interval) : (grids : Nat) → (exponent : Int) → Decimal
  | 0, exponent => { mantissa := (i.below exponent).1, exponent := exponent }
  | grids + 1, exponent =>
      let (count, upper) := i.below exponent
      let lowerFits := i.contains count exponent
      let upperFits := i.contains (count + 1) exponent
      if upperFits && (upper || !lowerFits) then { mantissa := count + 1, exponent := exponent }
      else if lowerFits then { mantissa := count, exponent := exponent }
      else i.shortest grids (exponent - 1)

/-- The exponent of the value's leading decimal digit, searched from `exponent` downwards. -/
def Interval.leading (i : Interval) : (steps : Nat) → (exponent : Int) → Int
  | 0, exponent => exponent
  | steps + 1, exponent =>
      if (i.below exponent).1 = 0 then i.leading steps (exponent - 1) else exponent

/-- The shortest decimal that reads back as a finite double. The first grid is one above the leading
digit, since a power of ten just above the value may belong to the interval. -/
def ofFloat (x : Float) : Decimal :=
  let bits := x.toBits.toNat
  let field := bits / Nat.pow 2 52 % Nat.pow 2 11
  let fraction := bits % Nat.pow 2 52
  let mantissa := if field = 0 then fraction else Nat.pow 2 52 + fraction
  let exponent : Int := (if field = 0 then 1 else field : Nat) - 1075
  let size :=
    if mantissa = 0 then { mantissa := 0 }
    else
      let interval := Interval.ofBinary mantissa exponent (fraction == 0 && decide (1 < field))
      interval.shortest 18 (interval.leading 640 310 + 1)
  { size with negative := decide (Nat.pow 2 63 ≤ bits) }

def positional (d : Decimal) : List Char :=
  let digits := Nat.toDigits 10 d.mantissa
  let size :=
    if d.mantissa = 0 then ['0']
    else if 0 ≤ d.exponent then digits ++ List.replicate d.exponent.toNat '0'
    else
      let places := d.exponent.natAbs
      let padded := List.replicate (places + 1 - digits.length) '0' ++ digits
      padded.take (padded.length - places) ++ '.' :: padded.drop (padded.length - places)
  if d.negative then '-' :: size else size

end Decimal

end PatternCompiler
