import DiceNotation.Decimal.Binary64

/-!
# The remainder of floats

The remainder of a division that rounds toward zero. It is computed exactly, on the integers
that both floats are multiples of a common power of two by, and is itself a float.
-/

namespace DiceNotation

open Binary64

/-- The remainder of two finite magnitudes, the second one positive. -/
def remainderOfMagnitudes (a b : Nat) : Nat :=
  let e := min (binaryExponent a) (binaryExponent b)
  let multiple (mag : Nat) : Nat := significand mag * Nat.pow 2 (binaryExponent mag - e).toNat
  let (num, den) := scaleDown 2 (multiple a % multiple b) 1 (-e)
  nearest num den

/-- The remainder of `x / y` rounded toward zero, with the sign of `x`. There is none for an
infinite `x` or a zero `y`; an infinite `y` leaves `x` as it is. -/
def truncatedRemainder (x y : Float) : Float :=
  let a := magnitude x
  let b := magnitude y
  if infinity ≤ a || infinity < b || b == 0 then 0.0 / 0.0
  else if b == infinity then x
  else ofMagnitude (isNegative x) (remainderOfMagnitudes a b)

/-- The remainder of `x / y` rounded down, with the sign of `y`. -/
def flooredRemainder (x y : Float) : Float :=
  let r := truncatedRemainder x y
  if r != 0 && decide (r < 0) != decide (y < 0) then r + y else r

end DiceNotation
