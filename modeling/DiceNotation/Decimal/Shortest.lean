import DiceNotation.Decimal.Binary64

/-!
# The fewest digits that read back

A decimal `digits * 10 ^ exponent` reads as the magnitude nearest to it. `shortest` tries the
two neighbours of a magnitude on ever finer decimal grids and takes the first that reads back,
so no decimal with fewer digits does.

* `reads_of_neighbour?`: what a grid offers reads back.
-/

namespace DiceNotation

/-- The number `digits * 10 ^ exponent`. -/
structure Decimal where
  digits : Nat
  exponent : Int
deriving DecidableEq, Repr

namespace Decimal

open Binary64

/-- The magnitude that a decimal reads as. Exponents far outside the range of floats are
settled without forming the power of ten. -/
def magnitude (d : Decimal) : Nat :=
  if d.digits = 0 then 0
  else if 309 < d.exponent then infinity
  else if d.exponent + d.digits.log2 < -324 then 0
  else
    let (num, den) := scaleDown 10 d.digits 1 (-d.exponent)
    nearest num den

/-- The better of the two neighbours of a magnitude on the grid of the multiples of `10 ^ k`,
among those that read back. Of two equally near ones the upper is better. -/
def neighbour? (mag : Nat) (k : Int) : Option Decimal :=
  let (num, den) := scaleDown 2 (significand mag) 1 (-binaryExponent mag)
  let (n, d) := scaleDown 10 num den k
  let lower : Decimal := ⟨n / d, k⟩
  let upper : Decimal := ⟨n / d + 1, k⟩
  if lower.magnitude = mag ∧ (upper.magnitude ≠ mag ∨ 2 * (n % d) < d) then some lower
  else if upper.magnitude = mag then some upper
  else none

/-- An exponent of ten above that of a finite magnitude: `30103 / 100000` is above the
logarithm of two. -/
def coarsest (mag : Nat) : Int :=
  ((significand mag).log2 + binaryExponent mag + 1) * 30103 / 100000 + 2

/-- The number of grids between the coarsest one and one that holds every finite magnitude. -/
def gridCount : Nat := 800

/-- The decimal with the fewest digits that reads as a finite magnitude, and the nearest to it
among those; zero has one digit. -/
def shortest (mag : Nat) : Decimal :=
  if mag = 0 then ⟨0, 0⟩
  else
    ((List.range gridCount).findSome? fun (i : Nat) =>
      neighbour? mag (coarsest mag - i)).getD ⟨0, 0⟩

theorem reads_of_neighbour? {mag : Nat} {k : Int} {d : Decimal}
    (h : neighbour? mag k = some d) : d.magnitude = mag := by
  unfold neighbour? at h
  simp only at h
  split at h
  · next hl => exact Option.some.inj h ▸ hl.1
  · split at h
    · next hu => exact Option.some.inj h ▸ hu
    · cases h

end Decimal

end DiceNotation
