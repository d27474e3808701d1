import DiceNotation.Decimal.Shortest
import DiceNotation.Proofs.Decimal.Nearest
import Mathlib.Data.Nat.Cast.Order.Field

/-!
# The shortest decimal is the shortest

A decimal is read as the magnitude nearest to its number, so that of the decimals between two that
read as a magnitude all do. If any decimal of a grid reads as a magnitude, one of the two neighbours
on that grid does, and so the search for the shortest decimal finds the coarsest grid there is.

* `magnitude_le_iff`: what a decimal is read as.
* `magnitude_shortest`: the shortest decimal of a finite magnitude reads as it.
* `digits_shortest_lt`: no decimal with fewer digits does.
-/

namespace DiceNotation.Decimal

open Binary64

/-- The number that a decimal stands for. -/
def value (d : Decimal) : ℚ := d.digits * 10 ^ d.exponent

/-! ## Powers of two and ten -/

theorem ten_zpow_pos (k : Int) : (0 : ℚ) < 10 ^ k := by positivity

theorem zpow_pow_comm (x : ℚ) (t : Int) (p : Nat) : (x ^ t) ^ p = (x ^ p) ^ t := by
  rw [← zpow_natCast, ← zpow_natCast, ← zpow_mul, ← zpow_mul, mul_comm]

theorem two_zpow_le_ten_zpow {t m : Int} {p q : Nat} (hp : p ≠ 0)
    (hbase : ((2 : ℚ) ^ p) ^ t ≤ (10 ^ q) ^ t) (h : q * t ≤ p * m) : (2 : ℚ) ^ t ≤ 10 ^ m := by
  have hpow : ((2 : ℚ) ^ t) ^ p ≤ (10 ^ m) ^ p :=
    calc ((2 : ℚ) ^ t) ^ p = (2 ^ p) ^ t := zpow_pow_comm 2 t p
      _ ≤ (10 ^ q) ^ t := hbase
      _ = 10 ^ (q * t) := by rw [← zpow_natCast, ← zpow_mul]
      _ ≤ 10 ^ (p * m) := zpow_le_zpow_right₀ (by norm_num) h
      _ = (10 ^ m) ^ p := by rw [← zpow_natCast, ← zpow_mul, mul_comm]
  exact le_of_pow_le_pow_left₀ hp (ten_zpow_pos m).le hpow

/-- `28 / 93` is above the logarithm of two. -/
theorem two_zpow_le_of_nonneg {t m : Int} (ht : 0 ≤ t) (h : 28 * t ≤ 93 * m) :
    (2 : ℚ) ^ t ≤ 10 ^ m :=
  two_zpow_le_ten_zpow (p := 93) (q := 28) (by norm_num)
    (zpow_le_zpow_left₀ ht (by positivity) (by norm_num)) h

/-- `59 / 196` is below it. -/
theorem two_zpow_le_of_nonpos {t m : Int} (ht : t ≤ 0) (h : 59 * t ≤ 196 * m) :
    (2 : ℚ) ^ t ≤ 10 ^ m := by
  refine two_zpow_le_ten_zpow (p := 196) (q := 59) (by norm_num) ?_ h
  have hpow : ((10 : ℚ) ^ 59) ^ (-t) ≤ (2 ^ 196) ^ (-t) :=
    zpow_le_zpow_left₀ (by omega) (by positivity) (by norm_num)
  rw [zpow_neg, zpow_neg] at hpow
  exact (inv_le_inv₀ (by positivity) (by positivity)).mp hpow

/-! ## What a decimal is read as -/

theorem not_covers_of_large {d : Decimal} {mag : Nat} (hmag : mag < infinity) (hd : d.digits ≠ 0)
    (h : 309 < d.exponent) : ¬Covers mag d.value := by
  have hinfinity : Binary64.value infinity = 2 ^ (1024 : Int) := by
    have hsignificand : significand infinity = hiddenBit := by decide
    have hexponent : binaryExponent infinity = 972 := by decide
    rw [Binary64.value, hsignificand, hexponent, hiddenBit_eq, ← zpow_add₀ (by norm_num)]
    rfl
  have hdigits : (1 : ℚ) ≤ d.digits := by exact_mod_cast Nat.one_le_iff_ne_zero.mpr hd
  have hle : Binary64.value infinity ≤ d.value :=
    calc Binary64.value infinity = 2 ^ (1024 : Int) := hinfinity
      _ ≤ 10 ^ d.exponent := two_zpow_le_of_nonneg (by omega) (by omega)
      _ ≤ d.value := le_mul_of_one_le_left (ten_zpow_pos _).le hdigits
  intro hcovers
  exact absurd (covers_value_iff.mp (hcovers.mono hle)) (by omega)

theorem covers_of_small {d : Decimal} (mag : Nat) (h : d.exponent + d.digits.log2 < -324) :
    Covers mag d.value := by
  have hone : Binary64.value 1 = 2 ^ (-1074 : Int) := by
    have hsignificand : significand 1 = 1 := by decide
    have hexponent : binaryExponent 1 = -1074 := by decide
    rw [Binary64.value, hsignificand, hexponent, Nat.cast_one, one_mul]
  have hlog : (d.digits : ℚ) ≤ 2 * 10 ^ (d.digits.log2 : Int) := by
    have hlt : d.digits < 2 ^ (d.digits.log2 + 1) := Nat.lt_log2_self
    have hpow : 2 ^ d.digits.log2 ≤ 10 ^ d.digits.log2 := Nat.pow_le_pow_left (by omega) _
    rw [zpow_natCast]
    exact_mod_cast (by rw [Nat.pow_succ] at hlt; omega : d.digits ≤ 2 * 10 ^ d.digits.log2)
  have hvalue : 2 * d.value ≤ 4 * 10 ^ (-325 : Int) :=
    calc 2 * d.value ≤ 2 * (2 * 10 ^ (d.digits.log2 : Int) * 10 ^ d.exponent) :=
          mul_le_mul_of_nonneg_left
            (mul_le_mul_of_nonneg_right hlog (ten_zpow_pos _).le) (by norm_num)
      _ = 4 * 10 ^ ((d.digits.log2 : Int) + d.exponent) := by
          rw [zpow_add₀ (by norm_num)]
          ring
      _ ≤ 4 * 10 ^ (-325 : Int) :=
          mul_le_mul_of_nonneg_left (zpow_le_zpow_right₀ (by norm_num) (by omega)) (by norm_num)
  have hleast : 10 * (10 : ℚ) ^ (-325 : Int) ≤ Binary64.value 1 := by
    have hpow : (2 : ℚ) ^ (1074 : Int) ≤ 10 ^ (324 : Int) :=
      two_zpow_le_of_nonneg (by norm_num) (by norm_num)
    have hten : 10 * (10 : ℚ) ^ (-325 : Int) = ((10 : ℚ) ^ (324 : Int))⁻¹ := by
      rw [← zpow_neg, ← zpow_one_add₀ (by norm_num)]
      rfl
    rw [hone, hten, zpow_neg]
    exact (inv_le_inv₀ (by positivity) (by positivity)).mpr hpow
  have hnext : Binary64.value 1 ≤ Binary64.value (mag + 1) :=
    value_strictMono.monotone (by omega)
  have hmag := Binary64.value_nonneg mag
  have hten := ten_zpow_pos (-325)
  exact .inl (by linarith)

/-- A decimal is read as the magnitude nearest to its number. -/
theorem magnitude_le_iff {d : Decimal} {mag : Nat} (hmag : mag < infinity) :
    d.magnitude ≤ mag ↔ Covers mag d.value := by
  unfold magnitude
  split
  · next hd =>
    have hvalue : d.value = Binary64.value 0 := by
      rw [value, hd, Nat.cast_zero, zero_mul, value_zero]
    rw [hvalue, covers_value_iff]
  · next hd =>
    split
    · next h => exact iff_of_false (by omega) (not_covers_of_large hmag hd h)
    · split
      · next h => exact iff_of_true (by omega) (covers_of_small mag h)
      · have hpos : 0 < (scaleDown 10 d.digits 1 (-d.exponent)).2 :=
          scaleDown_snd_pos (by norm_num) (by norm_num) _
        have hdiv : ((scaleDown 10 d.digits 1 (-d.exponent)).1 : ℚ) /
            (scaleDown 10 d.digits 1 (-d.exponent)).2 = d.value := by
          rw [scaleDown_div, zpow_neg, div_inv_eq_mul, Nat.cast_one, div_one]
          rfl
        rw [nearest_le_iff hpos hmag, hdiv]

theorem magnitude_le_infinity (d : Decimal) : d.magnitude ≤ infinity := by
  unfold magnitude
  split
  · omega
  · split
    · omega
    · split
      · omega
      · exact nearest_le_infinity _ _

theorem magnitude_mono {d d' : Decimal} (h : d.value ≤ d'.value) : d.magnitude ≤ d'.magnitude := by
  rcases d'.magnitude_le_infinity.lt_or_eq with hlt | heq
  · exact (magnitude_le_iff hlt).mpr (((magnitude_le_iff hlt).mp (le_refl _)).mono h)
  · rw [heq]
    exact d.magnitude_le_infinity

/-- Decimals that stand for the same number are read as the same magnitude. -/
theorem magnitude_congr {d d' : Decimal} (h : d.value = d'.value) : d.magnitude = d'.magnitude :=
  (magnitude_mono h.le).antisymm (magnitude_mono h.ge)

theorem magnitude_le_of_value_le {d : Decimal} {mag : Nat} (hmag : mag < infinity)
    (h : d.value ≤ Binary64.value mag) : d.magnitude ≤ mag :=
  (magnitude_le_iff hmag).mpr ((covers_value_iff.mpr (le_refl mag)).mono h)

theorem le_magnitude_of_value_le {d : Decimal} {mag : Nat} (hmag : mag < infinity)
    (h : Binary64.value mag ≤ d.value) : mag ≤ d.magnitude := by
  by_contra hlt
  have hcovers := (magnitude_le_iff (d := d) (by omega)).mp (le_refl _)
  exact hlt (covers_value_iff.mp (hcovers.mono h))

/-- What stands for the number of a magnitude is read as it. -/
theorem magnitude_of_value {d : Decimal} {mag : Nat} (hmag : mag < infinity)
    (h : d.value = Binary64.value mag) : d.magnitude = mag :=
  (magnitude_le_of_value_le hmag h.le).antisymm (le_magnitude_of_value_le hmag h.ge)

/-! ## Neighbours on a grid -/

/-- The number of whole steps of `10 ^ k` in a magnitude. -/
def stepsBelow (mag : Nat) (k : Int) : Nat :=
  let (num, den) := scaleDown 2 (significand mag) 1 (-binaryExponent mag)
  let (n, d) := scaleDown 10 num den k
  n / d

section Neighbours

variable {mag : Nat} {k : Int}

theorem value_stepsBelow (mag : Nat) (k : Int) :
    (⟨stepsBelow mag k, k⟩ : Decimal).value ≤ Binary64.value mag ∧
      Binary64.value mag < (⟨stepsBelow mag k + 1, k⟩ : Decimal).value := by
  generalize hnum : scaleDown 2 (significand mag) 1 (-binaryExponent mag) = ratio
  have hpos : 0 < ratio.2 := hnum ▸ scaleDown_snd_pos (by norm_num) (by norm_num) _
  have hratio : (ratio.1 : ℚ) / ratio.2 = Binary64.value mag := by
    rw [← hnum, scaleDown_div, zpow_neg, div_inv_eq_mul, Nat.cast_one, div_one]
    rfl
  have hpos' : 0 < (scaleDown 10 ratio.1 ratio.2 k).2 := scaleDown_snd_pos (by norm_num) hpos k
  have hscaled : ((scaleDown 10 ratio.1 ratio.2 k).1 : ℚ) / (scaleDown 10 ratio.1 ratio.2 k).2 =
      Binary64.value mag / 10 ^ k := by
    rw [scaleDown_div, hratio]
    rfl
  have hsteps : stepsBelow mag k =
      (scaleDown 10 ratio.1 ratio.2 k).1 / (scaleDown 10 ratio.1 ratio.2 k).2 := by
    rw [stepsBelow, hnum]
  have hposq : (0 : ℚ) < (scaleDown 10 ratio.1 ratio.2 k).2 := by exact_mod_cast hpos'
  have hle : (stepsBelow mag k : ℚ) ≤ Binary64.value mag / 10 ^ k := by
    rw [hsteps, ← hscaled]
    exact Nat.cast_div_le
  have hlt : Binary64.value mag / 10 ^ k < stepsBelow mag k + 1 := by
    rw [hsteps, ← hscaled, div_lt_iff₀ hposq]
    have hlt := Nat.lt_mul_div_succ (scaleDown 10 ratio.1 ratio.2 k).1 hpos'
    rw [mul_comm] at hlt
    exact_mod_cast hlt
  rw [value, value]
  push_cast
  exact ⟨(le_div_iff₀ (ten_zpow_pos k)).mp hle, (div_lt_iff₀ (ten_zpow_pos k)).mp hlt⟩

theorem neighbour?_cases {d : Decimal} (h : neighbour? mag k = some d) :
    d = ⟨stepsBelow mag k, k⟩ ∨ d = ⟨stepsBelow mag k + 1, k⟩ := by
  unfold neighbour? at h
  simp only at h
  split at h
  · exact .inl (Option.some.inj h).symm
  · split at h
    · exact .inr (Option.some.inj h).symm
    · cases h

theorem neighbour?_isSome (h : (⟨stepsBelow mag k, k⟩ : Decimal).magnitude = mag ∨
    (⟨stepsBelow mag k + 1, k⟩ : Decimal).magnitude = mag) : (neighbour? mag k).isSome := by
  by_contra hnone
  unfold neighbour? at hnone
  unfold stepsBelow at h
  simp only at h hnone
  split at hnone
  · exact hnone rfl
  · next hlower =>
    split at hnone
    · exact hnone rfl
    · next hupper =>
      rcases h with h | h
      · exact hlower ⟨h, .inl hupper⟩
      · exact hupper h

/-- If any decimal of a grid reads as a magnitude, so does one of the two neighbours. -/
theorem neighbour?_isSome_of_reads {d : Decimal} (hmag : mag < infinity) (h : d.magnitude = mag) :
    (neighbour? mag d.exponent).isSome := by
  obtain ⟨hlower, hupper⟩ := value_stepsBelow mag d.exponent
  apply neighbour?_isSome
  rcases Nat.lt_or_ge (stepsBelow mag d.exponent) d.digits with hlt | hle
  · right
    have hvalue : (⟨stepsBelow mag d.exponent + 1, d.exponent⟩ : Decimal).value ≤ d.value :=
      mul_le_mul_of_nonneg_right (by exact_mod_cast hlt) (ten_zpow_pos _).le
    exact ((magnitude_mono hvalue).trans_eq h).antisymm (le_magnitude_of_value_le hmag hupper.le)
  · left
    have hvalue : d.value ≤ (⟨stepsBelow mag d.exponent, d.exponent⟩ : Decimal).value :=
      mul_le_mul_of_nonneg_right (by exact_mod_cast hle) (ten_zpow_pos _).le
    exact (magnitude_le_of_value_le hmag hlower).antisymm (h.symm.trans_le (magnitude_mono hvalue))

end Neighbours

/-! ## The grids that are searched -/

theorem significand_pos {mag : Nat} (h : mag ≠ 0) : 0 < significand mag := by
  obtain ⟨hsum, hle, hlt, hge⟩ := parts mag
  simp only [hiddenBit] at *
  omega

theorem log2_significand_le (mag : Nat) : (significand mag).log2 ≤ 52 := by
  rcases Nat.eq_zero_or_pos (significand mag) with h | h
  · rw [h]
    decide
  · exact Nat.le_of_lt_succ ((Nat.log2_lt h.ne').mpr (parts mag).lt_bits)

theorem binaryExponent_le {mag : Nat} (hmag : mag < infinity) : binaryExponent mag ≤ 971 := by
  obtain ⟨hsum, hle, hlt, hge⟩ := parts mag
  simp only [hiddenBit, infinity] at *
  omega

/-- The grids begin with one on which a magnitude has no step below it. -/
theorem value_lt_coarsest {mag : Nat} (hpos : mag ≠ 0) (hmag : mag < infinity) :
    Binary64.value mag < 10 ^ coarsest mag := by
  have hlog := log2_significand_le mag
  have hexponent := binaryExponent_le hmag
  have hleast := (parts mag).le_exponent
  generalize ht : ((significand mag).log2 : Int) + binaryExponent mag + 1 = t
  have hcoarsest : coarsest mag = t * 30103 / 100000 + 2 := by rw [← ht, coarsest]
  have hpow : (2 : ℚ) ^ t ≤ 10 ^ coarsest mag := by
    rw [hcoarsest]
    rcases le_total 0 t with hsign | hsign
    · exact two_zpow_le_of_nonneg hsign (by omega)
    · exact two_zpow_le_of_nonpos hsign (by omega)
  calc Binary64.value mag < 2 ^ ((significand mag).log2 + 1 : Int) * 2 ^ binaryExponent mag :=
        mul_lt_mul_of_pos_right (log2_bounds (significand_pos hpos)).2 (two_zpow_pos _)
    _ = 2 ^ t := by
        rw [← zpow_add₀ (by norm_num), ← ht]
        congr 1
        omega
    _ ≤ 10 ^ coarsest mag := hpow

/-- A finite magnitude lies on a decimal grid, since ten is a multiple of two. -/
theorem exists_value_eq (mag : Nat) :
    ∃ d : Decimal, d.value = Binary64.value mag ∧ d.exponent = min (binaryExponent mag) 0 := by
  rcases le_total 0 (binaryExponent mag) with h | h
  · obtain ⟨n, hn⟩ := Int.eq_ofNat_of_zero_le h
    refine ⟨⟨significand mag * 2 ^ n, 0⟩, ?_, (min_eq_right h).symm⟩
    rw [value, Binary64.value, hn]
    push_cast
    rw [mul_one, zpow_natCast]
  · obtain ⟨n, hn⟩ : ∃ n : Nat, binaryExponent mag = -(n : Int) :=
      ⟨(-binaryExponent mag).toNat, by omega⟩
    refine ⟨⟨significand mag * 5 ^ n, binaryExponent mag⟩, ?_, (min_eq_left h).symm⟩
    have hten : (10 : ℚ) = 2 * 5 := by norm_num
    have hfive : (5 : ℚ) ^ n * 5 ^ (-(n : Int)) = 1 := by
      rw [← zpow_natCast, ← zpow_add₀ (by norm_num), add_neg_cancel, zpow_zero]
    rw [value, Binary64.value, hn, hten, mul_zpow]
    push_cast
    calc (significand mag : ℚ) * 5 ^ n * (2 ^ (-(n : Int)) * 5 ^ (-(n : Int)))
        = significand mag * 2 ^ (-(n : Int)) * (5 ^ n * 5 ^ (-(n : Int))) := by ring
      _ = significand mag * 2 ^ (-(n : Int)) := by rw [hfive, mul_one]

/-- What is found by counting up was not found before. -/
theorem findSome?_range {α : Type} {f : Nat → Option α} {n : Nat} {b : α}
    (h : (List.range n).findSome? f = some b) : ∃ i, f i = some b ∧ ∀ j < i, f j = none := by
  induction n with
  | zero => cases h
  | succ n ih =>
    rw [List.range_succ, List.findSome?_append] at h
    cases hfirst : (List.range n).findSome? f with
    | some a =>
      rw [hfirst] at h
      exact ih (hfirst.trans h)
    | none =>
      rw [hfirst] at h
      refine ⟨n, ?_, fun j hj => List.findSome?_eq_none_iff.mp hfirst j (List.mem_range.mpr hj)⟩
      rw [← h]
      cases hn : f n <;> simp [List.findSome?, hn]

/-- The search ends at the first grid on which some decimal reads as the magnitude. -/
theorem exists_shortest_eq {mag : Nat} (hpos : mag ≠ 0) (hmag : mag < infinity) :
    ∃ i : Nat, neighbour? mag (coarsest mag - i) = some (shortest mag) ∧
      ∀ j < i, neighbour? mag (coarsest mag - j) = none := by
  obtain ⟨d, hvalue, hexponent⟩ := exists_value_eq mag
  have hlog := log2_significand_le mag
  have hgreatest := binaryExponent_le hmag
  have hleast := (parts mag).le_exponent
  obtain ⟨i, hi, hgrid⟩ : ∃ i < gridCount, coarsest mag - (i : Int) = d.exponent := by
    rw [hexponent, coarsest, gridCount]
    exact ⟨(coarsest mag - d.exponent).toNat, by rw [hexponent, coarsest]; omega,
      by rw [hexponent, coarsest]; omega⟩
  have hfound : ((List.range gridCount).findSome? fun (i : Nat) =>
      neighbour? mag (coarsest mag - i)).isSome := by
    rw [List.findSome?_isSome_iff]
    refine ⟨i, List.mem_range.mpr hi, ?_⟩
    rw [hgrid]
    exact neighbour?_isSome_of_reads hmag (magnitude_of_value hmag hvalue)
  obtain ⟨b, hb⟩ := Option.isSome_iff_exists.mp hfound
  have hshortest : shortest mag = b := by
    rw [shortest, if_neg hpos, hb]
    rfl
  rw [hshortest]
  exact findSome?_range hb

/-! ## The shortest decimal -/

section Shortest

variable {mag : Nat}

/-- The shortest decimal of a finite magnitude reads as it. -/
theorem magnitude_shortest (hmag : mag < infinity) : (shortest mag).magnitude = mag := by
  by_cases hpos : mag = 0
  · rw [hpos]
    rfl
  · obtain ⟨i, hi, _⟩ := exists_shortest_eq hpos hmag
    exact reads_of_neighbour? hi

theorem digits_ne_zero {d : Decimal} (h : d.magnitude ≠ 0) : d.digits ≠ 0 := by
  intro hzero
  rw [magnitude, if_pos hzero] at h
  exact h rfl

/-- A decimal with an exponent beyond the grids can be replaced by a power of ten. -/
theorem exists_reads_le_coarsest {d : Decimal} {bound : Nat} (hpos : mag ≠ 0)
    (hmag : mag < infinity) (h : d.magnitude = mag) (hd : d.digits < bound) :
    ∃ d' : Decimal, d'.magnitude = mag ∧ d'.digits < bound ∧ d'.exponent ≤ coarsest mag := by
  have hdigits : d.digits ≠ 0 := digits_ne_zero (h ▸ hpos)
  rcases le_or_gt d.exponent (coarsest mag) with hle | hgt
  · exact ⟨d, h, hd, hle⟩
  · have hone : (1 : ℚ) ≤ d.digits := by exact_mod_cast Nat.one_le_iff_ne_zero.mpr hdigits
    have hpower : (⟨1, coarsest mag⟩ : Decimal).value = 10 ^ coarsest mag := by
      rw [value, Nat.cast_one, one_mul]
    have hvalue : (⟨1, coarsest mag⟩ : Decimal).value ≤ d.value :=
      calc (⟨1, coarsest mag⟩ : Decimal).value = 10 ^ coarsest mag := hpower
        _ ≤ 10 ^ d.exponent := zpow_le_zpow_right₀ (by norm_num) hgt.le
        _ ≤ d.value := le_mul_of_one_le_left (ten_zpow_pos _).le hone
    have hge : mag ≤ (⟨1, coarsest mag⟩ : Decimal).magnitude :=
      le_magnitude_of_value_le hmag (hpower ▸ (value_lt_coarsest hpos hmag).le)
    exact ⟨⟨1, coarsest mag⟩, ((magnitude_mono hvalue).trans_eq h).antisymm hge,
      (Nat.one_le_iff_ne_zero.mpr hdigits).trans_lt hd, le_refl _⟩

theorem stepsBelow_coarsest (hpos : mag ≠ 0) (hmag : mag < infinity) :
    stepsBelow mag (coarsest mag) = 0 := by
  have hlower : (stepsBelow mag (coarsest mag) : ℚ) * 10 ^ coarsest mag ≤ Binary64.value mag :=
    (value_stepsBelow mag (coarsest mag)).1
  have hlt := hlower.trans_lt (value_lt_coarsest hpos hmag)
  have hone : (stepsBelow mag (coarsest mag) : ℚ) < 1 :=
    lt_of_mul_lt_mul_right (by rwa [one_mul]) (ten_zpow_pos (coarsest mag)).le
  exact Nat.lt_one_iff.mp (by exact_mod_cast hone)

theorem exponent_shortest_lt_or (hpos : mag ≠ 0) (hmag : mag < infinity) :
    (shortest mag).exponent < coarsest mag ∨ (shortest mag).digits ≤ 1 := by
  obtain ⟨i, hfound, _⟩ := exists_shortest_eq hpos hmag
  have hcases := neighbour?_cases hfound
  rcases Nat.eq_zero_or_pos i with rfl | hi
  · right
    simp only [Int.natCast_zero, Int.sub_zero, stepsBelow_coarsest hpos hmag] at hcases
    rcases hcases with hcases | hcases <;> simp only [hcases] <;> omega
  · left
    rcases hcases with hcases | hcases <;> simp only [hcases] <;> omega

/-- The grid of the shortest decimal is the coarsest one on which any decimal reads as the
magnitude. -/
theorem exponent_le_shortest {d : Decimal} (hpos : mag ≠ 0) (hmag : mag < infinity)
    (h : d.magnitude = mag) (hcoarsest : d.exponent ≤ coarsest mag) :
    d.exponent ≤ (shortest mag).exponent := by
  obtain ⟨i, hfound, hfirst⟩ := exists_shortest_eq hpos hmag
  have hexponent : (shortest mag).exponent = coarsest mag - i := by
    rcases neighbour?_cases hfound with hcases | hcases <;> rw [hcases]
  by_contra hlt
  have hindex : coarsest mag - ((coarsest mag - d.exponent).toNat : Int) = d.exponent := by omega
  have hnone := hfirst (coarsest mag - d.exponent).toNat (by omega)
  have hsome := neighbour?_isSome_of_reads hmag h
  rw [← hindex, hnone] at hsome
  cases hsome

/-- No decimal with fewer digits than the shortest one reads as the same magnitude. -/
theorem digits_shortest_lt {d : Decimal} {n : Nat} (hmag : mag < infinity) (h : d.magnitude = mag)
    (hd : d.digits < 10 ^ (n + 1)) : (shortest mag).digits < 10 ^ (n + 1) := by
  by_cases hpos : mag = 0
  · rw [hpos]
    exact Nat.pow_pos (by omega)
  obtain ⟨d, h, hd, hcoarsest⟩ := exists_reads_le_coarsest hpos hmag h hd
  have hexponent := exponent_le_shortest hpos hmag h hcoarsest
  by_contra hge
  rcases exponent_shortest_lt_or hpos hmag with hlt | hone
  · -- a decimal of the next grid lies between the two, so it reads as the magnitude too
    generalize hbetween : (⟨10 ^ n, (shortest mag).exponent + 1⟩ : Decimal) = between
    have hvalue : between.value = ((10 ^ (n + 1) : Nat) : ℚ) * 10 ^ (shortest mag).exponent := by
      rw [← hbetween, value, zpow_add_one₀ (by norm_num)]
      push_cast
      ring
    have hlower : d.value ≤ between.value := by
      rw [hvalue]
      exact mul_le_mul (by exact_mod_cast hd.le) (zpow_le_zpow_right₀ (by norm_num) hexponent)
        (ten_zpow_pos _).le (Nat.cast_nonneg _)
    have hupper : between.value ≤ (shortest mag).value := by
      rw [hvalue]
      exact mul_le_mul_of_nonneg_right (by exact_mod_cast not_lt.mp hge) (ten_zpow_pos _).le
    have hreads : between.magnitude = mag :=
      ((magnitude_mono hupper).trans_eq (magnitude_shortest hmag)).antisymm
        (h.symm.trans_le (magnitude_mono hlower))
    subst hbetween
    exact absurd (exponent_le_shortest hpos hmag hreads hlt) (Int.not_le.mpr (Int.lt_succ _))
  · have hten : 10 ^ 1 ≤ 10 ^ (n + 1) := Nat.pow_le_pow_right (by omega) (by omega)
    omega

end Shortest

end DiceNotation.Decimal
