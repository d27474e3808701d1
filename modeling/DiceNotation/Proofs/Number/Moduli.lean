import DiceNotation.Proofs.Number.Totals
import DiceNotation.RollError
import Mathlib.Data.Rat.Floor

/-!
# Moduli of integers

The modulus of two integers is what a division that rounds down leaves. It is put together from a
Euclidean remainder, which there is not if the quotient is beyond the 64-bit range, and a shift to
the side of a negative divisor.

* `euclideanRemainder?_cases`: where the Euclidean remainder is missing, it would be zero.
* `toInt_add_of_remainder`: the shift stays within the range.
* `modulo_floors`: the modulus of two integers is an integer, and which.
-/

namespace DiceNotation.Number

variable {x y : Int64}

/-! ## The Euclidean remainder -/

/-- The only quotient that is beyond the range is one without remainder, as of the least integer
and -1. -/
theorem emod_eq_zero_of_not_fits (hy : y ≠ 0) (h : ¬FitsInt64 (x.toInt / y.toInt)) :
    x.toInt % y.toInt = 0 := by
  have hy' : y.toInt ≠ 0 := fun h0 => hy (Int64.toInt_inj.mp h0)
  have hxlo := x.le_toInt
  have hxhi := x.toInt_lt
  have hsize : (x.toInt / y.toInt).natAbs ≤ x.toInt.natAbs := Int.natAbs_ediv_le_natAbs _ _
  have hquotient : x.toInt / y.toInt = 2 ^ 63 := by
    by_contra hne
    refine h ⟨Int64.ofInt (x.toInt / y.toInt), ?_⟩
    rw [Int64.toInt_ofInt_of_le (by omega) (by omega)]
  have hdivision := Int.mul_ediv_add_emod x.toInt y.toInt
  have hnonneg := Int.emod_nonneg x.toInt hy'
  have hlt := Int.emod_lt x.toInt hy'
  rw [hquotient] at hdivision
  omega

theorem euclideanRemainder?_cases (hy : y ≠ 0) :
    (euclideanRemainder? x y = none ∧ x.toInt % y.toInt = 0) ∨
      ∃ r, euclideanRemainder? x y = some r ∧ r.toInt = x.toInt % y.toInt := by
  have hy' : y.toInt ≠ 0 := fun h0 => hy (Int64.toInt_inj.mp h0)
  unfold euclideanRemainder?
  rw [if_neg hy]
  cases hquotient : int64? (x.toInt / y.toInt) with
  | none =>
    refine .inl ⟨rfl, emod_eq_zero_of_not_fits hy ?_⟩
    rintro ⟨n, hn⟩
    rw [int64?_eq_some_iff.mpr hn] at hquotient
    cases hquotient
  | some q =>
    have hlo := y.le_toInt
    have hhi := y.toInt_lt
    have hnonneg := Int.emod_nonneg x.toInt hy'
    have hlt := Int.emod_lt x.toInt hy'
    exact .inr ⟨_, rfl, Int64.toInt_ofInt_of_le (by omega) (by omega)⟩

/-! ## The shift -/

/-- A remainder is shifted by a negative divisor without leaving the range. -/
theorem toInt_add_of_remainder {r : Int64} (hr : 0 ≤ r.toInt) (hy : y < 0) :
    (r + y).toInt = r.toInt + y.toInt := by
  have hneg : y.toInt < 0 := Int64.lt_iff_toInt_lt.mp hy
  have hlo := y.le_toInt
  have hhi := r.toInt_lt
  rw [Int64.toInt_add, Int.bmod_eq_of_le (by omega) (by omega)]

/-- The shifted remainder is that of the division that rounds down. -/
theorem toInt_integerModulus (hy : y ≠ 0) :
    (integerModulus x y).toInt = x.toInt.fmod y.toInt := by
  have hy' : y.toInt ≠ 0 := fun h0 => hy (Int64.toInt_inj.mp h0)
  unfold integerModulus
  rw [Int.fmod_eq_emod]
  rcases euclideanRemainder?_cases (x := x) hy with ⟨hnone, hzero⟩ | ⟨r, hsome, hr⟩
  · rw [hnone, if_pos (.inr (Int.dvd_of_emod_eq_zero hzero)), hzero]
    rfl
  · have hzero : r = 0 ↔ y.toInt ∣ x.toInt := by
      rw [← Int64.toInt_inj, hr]
      exact Int.dvd_iff_emod_eq_zero.symm
    have hshift : r ≠ 0 ∧ y < 0 ↔ ¬(0 ≤ y.toInt ∨ y.toInt ∣ x.toInt) := by
      rw [not_or, Int.not_le, ← hzero, and_comm]
      exact and_congr_left' Int64.lt_iff_toInt_lt
    rw [hsome]
    dsimp only
    by_cases h : r ≠ 0 ∧ y < 0
    · have hnonneg : 0 ≤ r.toInt := hr ▸ Int.emod_nonneg x.toInt hy'
      rw [if_pos h, if_neg (hshift.mp h), toInt_add_of_remainder hnonneg h.2, hr]
    · rw [if_neg h, if_pos (not_not.mp (mt hshift.mpr h)), hr, Int.add_zero]

example : integerModulus 7 (-3) = -2 := by decide

/-! ## The modulus -/

theorem modulo_int (hy : y ≠ 0) : (int x).modulo (int y) = .ok (.int (integerModulus x y)) := by
  have hzero : ((int y : Number) == zero) = false := by
    rw [← Bool.not_eq_true, zero, beq_int]
    exact hy
  unfold modulo
  rw [hzero]
  rfl

theorem fdiv_eq_floor (a b : Int) : a.fdiv b = ⌊(a : ℚ) / b⌋ := by
  have hnat (c : Int) (n : Nat) : c.fdiv n = ⌊(c : ℚ) / (n : Int)⌋ := by
    rw [Int.fdiv_eq_ediv_of_nonneg c (Int.natCast_nonneg n)]
    exact (Rat.floor_intCast_div_natCast c n).symm
  obtain ⟨n, rfl | rfl⟩ := b.eq_nat_or_neg
  · exact hnat a n
  · rw [← Int.neg_fdiv_neg, neg_neg, hnat, Int.cast_neg, Int.cast_neg, neg_div, div_neg]

/-- The remainder of a division that rounds down is zero or on the side of the divisor, and nearer
to zero than that. -/
theorem fmod_bounds (a : Int) {b : Int} (hb : b ≠ 0) :
    (a.fmod b = 0 ∨ (a.fmod b).sign = b.sign) ∧ |a.fmod b| < |b| := by
  have hnonneg := Int.emod_nonneg a hb
  have hlt := Int.emod_lt_abs a hb
  rw [Int.fmod_eq_emod]
  rcases Int.lt_or_lt_of_ne hb with hneg | hpos
  · by_cases hdvd : b ∣ a
    · rw [if_pos (.inr hdvd), Int.emod_eq_zero_of_dvd hdvd]
      exact ⟨.inl rfl, abs_pos.mpr hb⟩
    · have hrest : a % b ≠ 0 := fun h => hdvd (Int.dvd_of_emod_eq_zero h)
      rw [abs_of_neg hneg] at hlt ⊢
      rw [if_neg (by omega), Int.sign_eq_neg_one_of_neg hneg, abs_of_neg (by omega)]
      exact ⟨.inr (Int.sign_eq_neg_one_of_neg (by omega)), by omega⟩
  · rw [abs_of_pos hpos] at hlt ⊢
    rw [if_pos (.inl hpos.le), Int.add_zero, abs_of_nonneg hnonneg, Int.sign_eq_one_of_pos hpos]
    refine ⟨?_, hlt⟩
    rcases hnonneg.eq_or_lt with hzero | hrest
    · exact .inl hzero.symm
    · exact .inr (Int.sign_eq_one_of_pos hrest)

/-- The modulus of two integers is the integer that a division by `y` with the quotient rounded
down leaves of `x`: zero or on the side of `y`, and nearer to zero than `y`. Neither the Euclidean
remainder nor its shift leaves the 64-bit range on the way there. A modulus by zero is an error. -/
theorem modulo_floors (x y : Int64) :
    (y ≠ 0 → ∃ r : Int64, (int x).modulo (int y) = .ok (.int r) ∧
      r.toInt = x.toInt - y.toInt * ⌊(x.toInt : ℚ) / y.toInt⌋ ∧
      (r = 0 ∨ r.toInt.sign = y.toInt.sign) ∧ |r.toInt| < |y.toInt| ∧
      ∀ e, euclideanRemainder? x y = some e → e.toInt = x.toInt % y.toInt ∧
        (y < 0 → (e + y).toInt = e.toInt + y.toInt)) ∧
    (y = 0 → ∃ c, (int x).modulo (int y) = .error c ∧ (RollError.arithmetic c).kind = .value) := by
  constructor
  · intro hy
    have hy' : y.toInt ≠ 0 := fun h0 => hy (Int64.toInt_inj.mp h0)
    have hmodulus := toInt_integerModulus (x := x) hy
    obtain ⟨hsign, hsmall⟩ := fmod_bounds x.toInt hy'
    rw [← hmodulus] at hsign hsmall
    refine ⟨_, modulo_int hy, ?_, hsign.imp_left Int64.toInt_inj.mp, hsmall, fun e he => ?_⟩
    · rw [hmodulus, ← fdiv_eq_floor, Int.fmod_def]
    · rcases euclideanRemainder?_cases (x := x) hy with ⟨hnone, -⟩ | ⟨r, hsome, hr⟩
      · rw [hnone] at he
        cases he
      · obtain rfl : r = e := Option.some.inj (hsome ▸ he)
        exact ⟨hr, toInt_add_of_remainder (hr ▸ Int.emod_nonneg x.toInt hy')⟩
  · rintro rfl
    exact ⟨_, rfl, rfl⟩

/-- The least integer leaves no rest by -1, although the quotient does not fit. -/
theorem modulo_floors_minValue :
    (-1 : Int64) ≠ 0 ∧ euclideanRemainder? Int64.minValue (-1) = none ∧
      (int Int64.minValue).modulo (int (-1)) = .ok (.int 0) := by
  have hne : (-1 : Int64) ≠ 0 := by decide
  obtain ⟨r, hr, -, -, hsmall, -⟩ := (modulo_floors Int64.minValue (-1)).1 hne
  have hzero : r = 0 := Int64.toInt_inj.mp (Int.abs_lt_one_iff.mp hsmall)
  exact ⟨hne, by decide, hzero ▸ hr⟩

end DiceNotation.Number
