import DiceNotation.Decimal.Binary64
import DiceNotation.Number.Basic
import DiceNotation.Sorting.Stable

/-!
# Sorting numbers

Rolls are kept in ascending order. Integers are sorted exactly; beside a float, an integer
counts as the float nearest to it, and floats are sorted by the IEEE total order, in which the
negative zero comes before the positive one and NaN comes last.

Integers beyond 2^53 beside floats make this order intransitive, so that the result depends on
which elements are compared. All other lists have one stable sorted form, however it is found.
-/

namespace DiceNotation

/-- The place of a float in the IEEE total order. -/
def totalOrderKey (x : Float) : Int :=
  if Binary64.isNegative x then -(Binary64.magnitude x : Int) - 1 else Binary64.magnitude x

namespace Number

def compareTotal : Number → Number → Ordering
  | .int m, .int n => compare m.toInt n.toInt
  | a, b => compare (totalOrderKey a.toFloat) (totalOrderKey b.toFloat)

def isBelow (a b : Number) : Bool := compareTotal a b == .lt

/-- Whether no other integer has the same nearest float, judged by size alone. -/
def isExactAsFloat : Number → Bool
  | .int n => n.toInt.natAbs ≤ 2 * Binary64.hiddenBit
  | .float _ => true

/-- Whether one and the same order is behind all comparisons within a list: that of integers
or that of floats. -/
def haveOneOrder (xs : List Number) : Bool :=
  xs.all (·.toInt?.isSome) || xs.all isExactAsFloat

/-- Sorts into ascending order; equal numbers keep their places among each other. -/
def sort (xs : List Number) : List Number :=
  if haveOneOrder xs then xs.mergeSort fun a b => !isBelow b a
  else Sorting.stableSort isBelow xs

/-- Sorting neither loses nor invents values. -/
theorem perm_sort (xs : List Number) : (sort xs).Perm xs := by
  unfold sort
  split
  · exact List.mergeSort_perm _ _
  · exact Sorting.perm_stableSort _ xs

theorem length_sort (xs : List Number) : (sort xs).length = xs.length :=
  (perm_sort xs).length_eq

theorem mem_sort {x : Number} {xs : List Number} : x ∈ sort xs ↔ x ∈ xs :=
  (perm_sort xs).mem_iff

theorem sort_replicate (n : Nat) (x : Number) :
    sort (List.replicate n x) = List.replicate n x :=
  List.perm_replicate.mp (perm_sort _)

end Number

end DiceNotation
