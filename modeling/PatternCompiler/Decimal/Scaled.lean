import PatternCompiler.Decimal.Shortest

/-!
The double that a number in JSON text stands for. Its leading digits, as many as fit into 64 bits,
are rounded to a double, which is then multiplied or divided by a power of ten. For up to fifteen
digits and small exponents this is the nearest double.
-/

set_option autoImplicit false
set_option relaxedAutoImplicit false

namespace PatternCompiler.Decimal

/-- The leading digits of a number that fit into 64 bits, and how many digits are left out. -/
def leadingDigits (significand : Nat) : List Char → Nat × Nat
  | [] => (significand, 0)
  | c :: rest =>
      let next := 10 * significand + (c.toNat - '0'.toNat)
      if next < Nat.pow 2 64 then leadingDigits next rest else (significand, rest.length + 1)

def powerOfTen (exponent : Nat) : Float :=
  Float.ofScientific 1 false exponent

/-- A double divided by a power of ten, in steps that are doubles themselves. -/
def divideByPower (x : Float) (exponent : Nat) : Float :=
  if exponent ≤ 308 then x / powerOfTen exponent
  else if x == 0 then x
  else divideByPower (x / powerOfTen 308) (exponent - 308)
termination_by exponent

def scaled (d : Decimal) : Float :=
  let (significand, omitted) := leadingDigits 0 (Nat.toDigits 10 d.mantissa)
  let exponent := d.exponent + omitted
  let lead := (UInt64.ofNat significand).toFloat
  let size :=
    if 0 ≤ exponent then lead * powerOfTen exponent.toNat
    else divideByPower lead exponent.natAbs
  if d.negative then -size else size

end PatternCompiler.Decimal
