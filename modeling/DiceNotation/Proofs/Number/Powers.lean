import DiceNotation.Proofs.Number.Totals
import Mathlib.Algebra.Ring.Int.Parity
import Mathlib.Algebra.Order.Ring.Nat

/-!
# Powers of integers

A power of integers is computed exactly if its exponent is within 32 bits: the powers of -1, 0 and
1 by parity, and of all others only up to the exponent 63, as those above are beyond the 64-bit
range. With longer exponents every power is a float, also those of -1, 0 and 1, which are not
beyond the range.

* `exactPower?_bind_exactly?`: within 32 bits, nothing exact is lost.
* `powerIsExact_iff`: which powers are integers whenever they are within the range.
-/

namespace DiceNotation

namespace Number

/-! ## Exact powers -/

theorem pow_parity {x : Int} (h : x.natAbs ≤ 1) {n : Nat} (hn : n ≠ 0) :
    x ^ (2 - n % 2) = x ^ n := by
  obtain rfl | rfl | rfl : x = -1 ∨ x = 0 ∨ x = 1 := by omega
  · rcases Nat.mod_two_eq_zero_or_one n with heven | hodd
    · rw [heven, (Nat.even_iff.mpr heven).neg_one_pow]
      rfl
    · rw [hodd, (Nat.odd_iff.mpr hodd).neg_one_pow]
      rfl
  · rw [zero_pow hn, zero_pow (by omega)]
  · rw [one_pow, one_pow]

theorem not_fitsInt64_of_natAbs {z : Int} (h : 2 ^ 64 ≤ z.natAbs) : ¬FitsInt64 z := by
  rintro ⟨n, rfl⟩
  have hlo := n.le_toInt
  have hhi := n.toInt_lt
  omega

theorem not_fitsInt64_pow {x : Int} (hx : 1 < x.natAbs) {n : Nat} (hn : 64 ≤ n) :
    ¬FitsInt64 (x ^ n) := by
  apply not_fitsInt64_of_natAbs
  rw [Int.natAbs_pow]
  calc 2 ^ 64 ≤ 2 ^ n := Nat.pow_le_pow_right (by decide) hn
    _ ≤ x.natAbs ^ n := Nat.pow_le_pow_left hx n

theorem exactly?_eq_none_of_not_fits {z : Int} (h : ¬FitsInt64 z) : exactly? z = none := by
  cases hz : exactly? z with
  | none => rfl
  | some x =>
    obtain ⟨n, hn, rfl⟩ := Option.map_eq_some_iff.mp hz
    exact absurd ⟨n, int64?_eq_some_iff.mp hn⟩ h

/-- A power that is not computed exactly is beyond the range. -/
theorem exactPower?_bind_exactly? (x : Int) (n : Nat) :
    (exactPower? x n).bind exactly? = exactly? (x ^ n) := by
  unfold exactPower?
  split
  · next hx =>
    by_cases hn : n = 0
    · subst hn
      rfl
    · rw [if_neg hn, Option.bind_some]
      exact congrArg exactly? (pow_parity hx hn)
  · next hx =>
    split
    · rfl
    · next hn =>
      rw [Option.bind_none, exactly?_eq_none_of_not_fits (not_fitsInt64_pow (by omega) (by omega))]

/-! ## Powers as numbers -/

variable {x y : Int64}

theorem power_int (hy : 0 ≤ y.toInt) :
    (int x).power (int y) = .ok (integerPower x y) := by
  have hlt : (int y).lt zero = false := by
    rw [← Bool.not_eq_true, zero, lt_int]
    change ¬y.toInt < 0
    omega
  unfold power
  simp [hlt, hy]

theorem integerPower_of_lt (hy : y.toInt < 2 ^ 32) :
    integerPower x y = (exactly? (x.toInt ^ y.toInt.toNat)).getD
      (.float (Float.pow (floatOfInt x) (floatOfInt y))) := by
  have hsize : y.toInt < UInt32.size := hy
  unfold integerPower
  simp only [hsize, if_true, exactPower?_bind_exactly?]

theorem integerPower_of_le (hy : 2 ^ 32 ≤ y.toInt) :
    integerPower x y = .float (Float.pow (floatOfInt x) (floatOfInt y)) := by
  have hsize : ¬y.toInt < UInt32.size := Int.not_lt.mpr hy
  unfold integerPower
  simp only [hsize, if_false, Option.getD_none]

/-! ## Powers within the range -/

/-- Whether a power is the integer that it is mathematically if that is within the range, and a
float otherwise. -/
def PowerIsExact (x y : Int64) : Prop :=
  (∀ z : Int64, x.toInt ^ y.toInt.toNat = z.toInt → (int x).power (int y) = .ok (.int z)) ∧
    (¬FitsInt64 (x.toInt ^ y.toInt.toNat) → ∃ f, (int x).power (int y) = .ok (.float f))

theorem powerIsExact_of_lt (hy : 0 ≤ y.toInt) (hlt : y.toInt < 2 ^ 32) : PowerIsExact x y := by
  constructor
  · intro z hz
    rw [power_int hy, integerPower_of_lt hlt, exactly?_eq_some_iff.mpr hz, Option.getD_some]
  · intro hfit
    rw [power_int hy, integerPower_of_lt hlt, exactly?_eq_none_of_not_fits hfit, Option.getD_none]
    exact ⟨_, rfl⟩

theorem power_of_le (hy : 2 ^ 32 ≤ y.toInt) :
    (int x).power (int y) = .ok (.float (Float.pow (floatOfInt x) (floatOfInt y))) := by
  rw [power_int (by omega), integerPower_of_le hy]

/-- With a longer exponent, a power is as it should be only if it is beyond the range. -/
theorem powerIsExact_iff_of_le (hy : 2 ^ 32 ≤ y.toInt) :
    PowerIsExact x y ↔ ¬FitsInt64 (x.toInt ^ y.toInt.toNat) := by
  constructor
  · rintro ⟨hexact, -⟩ ⟨z, hz⟩
    have hint := hexact z hz
    rw [power_of_le hy] at hint
    cases hint
  · intro hfit
    exact ⟨fun z hz => absurd ⟨z, hz⟩ hfit, fun _ => ⟨_, power_of_le hy⟩⟩

/-- The powers of -1, 0 and 1 are within the range. -/
theorem fitsInt64_pow_of_natAbs {x : Int} (hx : x.natAbs ≤ 1) (n : Nat) : FitsInt64 (x ^ n) := by
  have hle : (x ^ n).natAbs ≤ 1 := by
    rw [Int.natAbs_pow]
    exact pow_le_one₀ (Nat.zero_le _) hx
  obtain h | h | h : x ^ n = -1 ∨ x ^ n = 0 ∨ x ^ n = 1 := by omega
  · exact ⟨-1, h⟩
  · exact ⟨0, h⟩
  · exact ⟨1, h⟩

/-- A power with an exponent of 0 or more is exact, unless its base is -1, 0 or 1 and its exponent
is longer than 32 bits. Such a power is within the range, and yet it is a float. -/
theorem powerIsExact_iff (hy : 0 ≤ y.toInt) :
    (PowerIsExact x y ↔ (x.toInt.natAbs ≤ 1 → y.toInt < 2 ^ 32)) ∧
      (x.toInt.natAbs ≤ 1 → 2 ^ 32 ≤ y.toInt →
        FitsInt64 (x.toInt ^ y.toInt.toNat) ∧
          (int x).power (int y) = .ok (.float (Float.pow (floatOfInt x) (floatOfInt y)))) := by
  refine ⟨?_, fun hx hlong => ⟨fitsInt64_pow_of_natAbs hx _, power_of_le hlong⟩⟩
  by_cases hlt : y.toInt < 2 ^ 32
  · exact iff_of_true (powerIsExact_of_lt hy hlt) fun _ => hlt
  · have hlong : 2 ^ 32 ≤ y.toInt := Int.not_lt.mp hlt
    rw [powerIsExact_iff_of_le hlong]
    by_cases hx : x.toInt.natAbs ≤ 1
    · exact iff_of_false (fun h => h (fitsInt64_pow_of_natAbs hx _)) fun h => hlt (h hx)
    · exact iff_of_true (not_fitsInt64_pow (by omega) (by omega)) fun h => absurd h hx

/-- The least integer is a power. -/
theorem powerIsExact_minValue :
    0 ≤ (63 : Int64).toInt ∧ (-2 : Int64).toInt ^ 63 = Int64.minValue.toInt ∧
      (int (-2)).power (int 63) = .ok (.int Int64.minValue) := by
  have hy : 0 ≤ (63 : Int64).toInt := by decide
  have hpow : (-2 : Int64).toInt ^ 63 = Int64.minValue.toInt := by decide
  have hexact : PowerIsExact (-2) 63 := (powerIsExact_iff hy).1.mpr fun _ => by decide
  exact ⟨hy, hpow, hexact.1 _ hpow⟩

/-- The power of 1 to the exponent 2 ^ 32 is 1, but the result is a float. -/
theorem not_powerIsExact_one :
    0 ≤ (4294967296 : Int64).toInt ∧
      (1 : Int64).toInt ^ (4294967296 : Int64).toInt.toNat = (1 : Int64).toInt ∧
      (∃ f, (int 1).power (int 4294967296) = .ok (.float f)) ∧ ¬PowerIsExact 1 4294967296 := by
  have hlong : 2 ^ 32 ≤ (4294967296 : Int64).toInt := by decide
  have hpow : (1 : Int64).toInt ^ (4294967296 : Int64).toInt.toNat = (1 : Int64).toInt := one_pow _
  refine ⟨by decide, hpow, ⟨_, power_of_le hlong⟩, ?_⟩
  rw [powerIsExact_iff_of_le hlong, not_not]
  exact ⟨1, hpow⟩

end Number

end DiceNotation
