/-!
# Double precision floats as natural numbers

Without its sign bit, a float is a natural number, its *magnitude*. Magnitudes are ordered as
the floats they stand for, a finite one decodes into a significand and a power of two, and
`nearest` finds the magnitude of any ratio by exact arithmetic.
-/

namespace DiceNotation.Binary64

/-! ## Magnitudes -/

/-- The bit of a float that holds the sign. -/
def signBit : Nat := 0x8000000000000000

/-- The leading bit of most significands, in the place of which a float holds its exponent. -/
def hiddenBit : Nat := 0x10000000000000

/-- The bits of a float without the sign. -/
def magnitude (x : Float) : Nat := x.toBits.toNat % signBit

/-- Whether the sign bit is set; the negative zero is negative. -/
def isNegative (x : Float) : Bool := signBit ≤ x.toBits.toNat

/-- The magnitude of infinity: every finite magnitude is below it. -/
def infinity : Nat := 2047 * hiddenBit

/-- The integer that a finite magnitude multiplies by a power of two. -/
def significand (mag : Nat) : Nat :=
  if mag < hiddenBit then mag else hiddenBit + mag % hiddenBit

/-- The power of two that a finite magnitude multiplies by its significand. -/
def binaryExponent (mag : Nat) : Int := max (mag / hiddenBit : Nat) 1 - 1075

/-- The float with a given sign and magnitude. -/
def ofMagnitude (negative : Bool) (mag : Nat) : Float :=
  Float.ofBits (UInt64.ofNat (if negative then signBit + mag else mag))

/-! ## Rounding a ratio -/

/-- The ratio `num / den` divided by `base ^ e`, as a ratio of naturals. -/
def scaleDown (base num den : Nat) (e : Int) : Nat × Nat :=
  if 0 ≤ e then (num, den * Nat.pow base e.toNat) else (num * Nat.pow base (-e).toNat, den)

/-- The natural number nearest to `num / den`; a tie goes to the even one. -/
def roundHalfEven (num den : Nat) : Nat :=
  let quotient := num / den
  let twice := 2 * (num % den)
  if twice < den || (twice == den && quotient % 2 == 0) then quotient else quotient + 1

/-- The exponent at which a positive ratio has a significand of 53 bits, or the least exponent
of all if that is greater. -/
def exponentOfRatio (num den : Nat) : Int :=
  let guess : Int := num.log2 - den.log2 - 53
  let (n, d) := scaleDown 2 num den guess
  max (if n / d < 2 * hiddenBit then guess else guess + 1) (-1074)

/-- The magnitude nearest to `num / den`; a tie goes to the even significand, and what is too
large is infinity. A significand that rounds up to twice the hidden bit carries into the exponent field. -/
def nearest (num den : Nat) : Nat :=
  if num = 0 then 0 else
    let e := exponentOfRatio num den
    let (n, d) := scaleDown 2 num den e
    min infinity ((e + 1074).toNat * hiddenBit + roundHalfEven n d)

theorem nearest_zero (den : Nat) : nearest 0 den = 0 := rfl

theorem nearest_le_infinity (num den : Nat) : nearest num den ≤ infinity := by
  unfold nearest
  split
  · exact Nat.zero_le _
  · exact Nat.min_le_left _ _

end DiceNotation.Binary64
