import DiceNotation.Decimal.Binary64
import Mathlib.Algebra.Order.Field.Power
import Mathlib.Data.Rat.Cast.Order
import Mathlib.Tactic.FieldSimp
import Mathlib.Tactic.Linarith
import Mathlib.Tactic.Positivity
import Mathlib.Tactic.Ring

/-!
# The nearest magnitude

Magnitudes stand for rational numbers in ascending order, infinity for the power of two that would
follow the finite ones. A ratio is rounded to a magnitude or one below it if and only if it does not
lie beyond the middle between this magnitude and the next one.

* `value_strictMono`: the order of magnitudes is that of the numbers.
* `nearest_le_iff`: where a ratio is rounded to.
-/

namespace DiceNotation.Binary64

/-- The number that a magnitude stands for. -/
def value (mag : Nat) : ℚ := significand mag * 2 ^ binaryExponent mag

/-- Whether a number is not beyond the middle between a magnitude and the next one. The middle
belongs to the even one of the two. -/
def Covers (mag : Nat) (q : ℚ) : Prop :=
  2 * q < value mag + value (mag + 1) ∨ 2 * q = value mag + value (mag + 1) ∧ mag % 2 = 0

/-! ## Significands and exponents -/

/-- An exponent and a significand of which the magnitude is made up. -/
structure Parts (mag : Nat) (e : Int) (s : Nat) : Prop where
  sum : (mag : Int) = (e + 1074) * hiddenBit + s
  le_exponent : -1074 ≤ e
  lt_bits : s < 2 * hiddenBit
  le_bits : e ≠ -1074 → hiddenBit ≤ s

theorem parts (mag : Nat) : Parts mag (binaryExponent mag) (significand mag) := by
  by_cases h : mag < hiddenBit
  · have hs : significand mag = mag := if_pos h
    have he : binaryExponent mag = -1074 := by
      rw [binaryExponent, Nat.div_eq_of_lt h]
      rfl
    rw [hs, he]
    exact ⟨by omega, by omega, by omega, fun hne => absurd rfl hne⟩
  · have hs : significand mag = hiddenBit + mag % hiddenBit := if_neg h
    have he : binaryExponent mag = (mag / hiddenBit : Nat) - 1075 := by
      have hone : 1 ≤ mag / hiddenBit := Nat.div_pos (by omega) (by decide)
      rw [binaryExponent]
      omega
    rw [hs, he]
    simp only [hiddenBit] at h ⊢
    exact ⟨by simp only [hiddenBit]; omega, by omega, by simp only [hiddenBit]; omega,
      fun _ => by simp only [hiddenBit]; omega⟩

theorem Parts.unique {mag : Nat} {e e' : Int} {s s' : Nat} (h : Parts mag e s)
    (h' : Parts mag e' s') : e = e' ∧ s = s' := by
  obtain ⟨hsum, hle, hlt, hge⟩ := h
  obtain ⟨hsum', hle', hlt', hge'⟩ := h'
  simp only [hiddenBit] at *
  omega

theorem Parts.value_eq {mag : Nat} {e : Int} {s : Nat} (h : Parts mag e s) :
    value mag = s * 2 ^ e := by
  obtain ⟨he, hs⟩ := (parts mag).unique h
  rw [value, he, hs]

theorem two_zpow_pos (e : Int) : (0 : ℚ) < 2 ^ e := by positivity

theorem two_zpow_succ (e : Int) : (2 : ℚ) ^ (e + 1) = 2 * 2 ^ e := by
  rw [zpow_add_one₀ (by norm_num), mul_comm]

/-- The next magnitude has the next significand, or the least one and the next exponent. -/
theorem value_succ (mag : Nat) :
    value (mag + 1) = (significand mag + 1) * 2 ^ binaryExponent mag := by
  obtain ⟨hsum, hle, hlt, hge⟩ := parts mag
  by_cases hcarry : significand mag + 1 = 2 * hiddenBit
  · have hparts : Parts (mag + 1) (binaryExponent mag + 1) hiddenBit := by
      constructor <;> simp only [hiddenBit] at * <;> omega
    have hbits : (significand mag : ℚ) + 1 = 2 * hiddenBit := by exact_mod_cast hcarry
    rw [hparts.value_eq, hbits, two_zpow_succ]
    ring
  · have hparts : Parts (mag + 1) (binaryExponent mag) (significand mag + 1) := by
      constructor <;> simp only [hiddenBit] at * <;> omega
    rw [hparts.value_eq]
    push_cast
    rfl

theorem value_strictMono : StrictMono value := by
  apply strictMono_nat_of_lt_succ
  intro mag
  rw [value_succ, value]
  have hpos := two_zpow_pos (binaryExponent mag)
  linarith

theorem value_zero : value 0 = 0 := by
  have hzero : significand 0 = 0 := rfl
  rw [value, hzero, Nat.cast_zero, zero_mul]

theorem value_nonneg (mag : Nat) : 0 ≤ value mag :=
  value_zero ▸ value_strictMono.monotone (Nat.zero_le mag)

/-! ## The middle between two magnitudes -/

theorem Covers.mono {mag : Nat} {q q' : ℚ} (h : Covers mag q') (hle : q ≤ q') : Covers mag q := by
  rcases h with h | ⟨h, heven⟩
  · exact .inl (by linarith)
  · rcases hle.lt_or_eq with hlt | rfl
    · exact .inl (by linarith)
    · exact .inr ⟨h, heven⟩

theorem covers_value_iff {mag mag' : Nat} : Covers mag (value mag') ↔ mag' ≤ mag := by
  have hnext : value mag < value (mag + 1) := value_strictMono (Nat.lt_succ_self mag)
  constructor
  · intro h
    by_contra hlt
    have hle : value (mag + 1) ≤ value mag' := value_strictMono.monotone (by omega)
    rcases h with h | ⟨h, _⟩ <;> linarith
  · intro hle
    have hvalue : value mag' ≤ value mag := value_strictMono.monotone hle
    exact .inl (by linarith)

theorem covers_iff {mag : Nat} {q : ℚ} :
    Covers mag q ↔ 2 * q < (2 * significand mag + 1) * 2 ^ binaryExponent mag ∨
      2 * q = (2 * significand mag + 1) * 2 ^ binaryExponent mag ∧ significand mag % 2 = 0 := by
  have hsum : value mag + value (mag + 1) =
      (2 * significand mag + 1) * 2 ^ binaryExponent mag := by
    rw [value_succ, value]
    ring
  have hparity : mag % 2 = significand mag % 2 := by
    have h := (parts mag).sum
    simp only [hiddenBit] at h
    omega
  rw [Covers, hsum, hparity]

/-! ## Rounding to a natural number -/

theorem roundHalfEven_bounds (num den : Nat) :
    num / den ≤ roundHalfEven num den ∧ roundHalfEven num den ≤ num / den + 1 := by
  unfold roundHalfEven
  dsimp only
  split <;> omega

theorem roundHalfEven_le_iff {num den m : Nat} (hden : 0 < den) :
    roundHalfEven num den ≤ m ↔
      2 * num < (2 * m + 1) * den ∨ 2 * num = (2 * m + 1) * den ∧ m % 2 = 0 := by
  have hdivmod := Nat.div_add_mod num den
  have hmod := Nat.mod_lt num hden
  obtain ⟨hlow, hhigh⟩ := roundHalfEven_bounds num den
  rcases Nat.lt_trichotomy (num / den) m with hlt | rfl | hgt
  · have hmul : den * (num / den + 1) ≤ den * m := Nat.mul_le_mul_left den hlt
    have hleft : 2 * num < (2 * m + 1) * den := by
      rw [Nat.mul_add] at hmul
      linarith
    exact ⟨fun _ => .inl hleft, fun _ => by omega⟩
  · have htwice : 2 * num = 2 * (den * (num / den)) + 2 * (num % den) := by omega
    have hmiddle : (2 * (num / den) + 1) * den = 2 * (den * (num / den)) + den := by ring
    rw [htwice, hmiddle]
    unfold roundHalfEven
    simp only [Bool.or_eq_true, decide_eq_true_eq, Bool.and_eq_true, beq_iff_eq]
    split <;> omega
  · have hmul : den * (m + 1) ≤ den * (num / den) := Nat.mul_le_mul_left den hgt
    have hright : (2 * m + 1) * den < 2 * num := by
      have hle := Nat.mul_div_le num den
      rw [Nat.mul_add] at hmul
      linarith
    exact ⟨fun _ => by omega, fun h => by omega⟩

theorem roundHalfEven_le_iff_div {num den m : Nat} (hden : 0 < den) :
    roundHalfEven num den ≤ m ↔ 2 * ((num : ℚ) / den) < 2 * m + 1 ∨
      2 * ((num : ℚ) / den) = 2 * m + 1 ∧ m % 2 = 0 := by
  have hpos : (0 : ℚ) < den := by exact_mod_cast hden
  have hlt : 2 * ((num : ℚ) / den) < 2 * m + 1 ↔ 2 * num < (2 * m + 1) * den := by
    rw [← mul_div_assoc, div_lt_iff₀ hpos]
    exact_mod_cast Iff.rfl
  have heq : 2 * ((num : ℚ) / den) = 2 * m + 1 ↔ 2 * num = (2 * m + 1) * den := by
    rw [← mul_div_assoc, div_eq_iff hpos.ne']
    exact_mod_cast Iff.rfl
  rw [roundHalfEven_le_iff hden, hlt, heq]

/-! ## The exponent of a ratio -/

theorem scaleDown_snd_pos {base num den : Nat} (hbase : 0 < base) (hden : 0 < den) (e : Int) :
    0 < (scaleDown base num den e).2 := by
  unfold scaleDown
  split
  · exact Nat.mul_pos hden (Nat.pow_pos hbase)
  · exact hden

theorem scaleDown_div {base num den : Nat} (e : Int) :
    ((scaleDown base num den e).1 : ℚ) / (scaleDown base num den e).2 =
      num / den / (base : ℚ) ^ e := by
  unfold scaleDown
  split
  · next he =>
    obtain ⟨n, rfl⟩ := Int.eq_ofNat_of_zero_le he
    simp only [Int.toNat_natCast, Nat.pow_eq, Nat.cast_mul, Nat.cast_pow, zpow_natCast]
    rw [div_div]
  · next he =>
    obtain ⟨n, hn⟩ : ∃ n : Nat, e = -(n : Int) := ⟨(-e).toNat, by omega⟩
    subst hn
    simp only [neg_neg, Int.toNat_natCast, Nat.pow_eq, Nat.cast_mul, Nat.cast_pow, zpow_neg,
      zpow_natCast, div_inv_eq_mul]
    ring

theorem two_zpow_natCast (n : Nat) : ((2 ^ n : Nat) : ℚ) = 2 ^ (n : Int) := by
  rw [Nat.cast_pow, zpow_natCast]
  rfl

/-- A natural number lies between two powers of two. -/
theorem log2_bounds {n : Nat} (h : 0 < n) :
    (2 : ℚ) ^ (n.log2 : Int) ≤ n ∧ (n : ℚ) < 2 ^ ((n.log2 : Int) + 1) := by
  have hle : 2 ^ n.log2 ≤ n := Nat.log2_self_le h.ne'
  have hlt : n < 2 ^ (n.log2 + 1) := Nat.lt_log2_self
  constructor
  · rw [← two_zpow_natCast]
    exact_mod_cast hle
  · have hcast : ((n.log2 : Int) + 1) = ((n.log2 + 1 : Nat) : Int) := by push_cast; rfl
    rw [hcast, ← two_zpow_natCast]
    exact_mod_cast hlt

theorem hiddenBit_eq : (hiddenBit : ℚ) = 2 ^ (52 : Int) := by
  norm_num [hiddenBit]

/-- The exponents at which a number has a significand of at most 53 bits, and of no fewer unless
it is the least one. -/
structure Scale (q : ℚ) (e : Int) : Prop where
  le_exponent : -1074 ≤ e
  lt_bits : q < 2 * hiddenBit * 2 ^ e
  le_bits : e ≠ -1074 → hiddenBit * 2 ^ e ≤ q

/-- The logarithms of both sides of a ratio tell its own one up to one. -/
theorem ratio_bounds {num den : Nat} (hnum : 0 < num) (hden : 0 < den) :
    (2 : ℚ) ^ ((num.log2 : Int) - den.log2 - 1) < num / den ∧
      (num : ℚ) / den < 2 ^ ((num.log2 : Int) - den.log2 + 1) := by
  have hpos : (0 : ℚ) < den := by exact_mod_cast hden
  obtain ⟨hnumle, hnumlt⟩ := log2_bounds hnum
  obtain ⟨hdenle, hdenlt⟩ := log2_bounds hden
  constructor
  · have hsplit : (num.log2 : Int) = (num.log2 - den.log2 - 1) + (den.log2 + 1) := by omega
    rw [lt_div_iff₀ hpos]
    calc (2 : ℚ) ^ ((num.log2 : Int) - den.log2 - 1) * den
        < 2 ^ ((num.log2 : Int) - den.log2 - 1) * 2 ^ ((den.log2 : Int) + 1) :=
          mul_lt_mul_of_pos_left hdenlt (two_zpow_pos _)
      _ = 2 ^ (num.log2 : Int) := by
          rw [← zpow_add₀ (by norm_num), ← hsplit]
      _ ≤ num := hnumle
  · have hsplit : (num.log2 : Int) + 1 = (num.log2 - den.log2 + 1) + den.log2 := by omega
    rw [div_lt_iff₀ hpos]
    calc (num : ℚ) < 2 ^ ((num.log2 : Int) + 1) := hnumlt
      _ = 2 ^ ((num.log2 : Int) - den.log2 + 1) * 2 ^ (den.log2 : Int) := by
          rw [← zpow_add₀ (by norm_num), ← hsplit]
      _ ≤ 2 ^ ((num.log2 : Int) - den.log2 + 1) * den :=
          mul_le_mul_of_nonneg_left hdenle (two_zpow_pos _).le

theorem scale_of_bounds {q : ℚ} {e : Int} (hle : hiddenBit * 2 ^ e ≤ q)
    (hlt : q < 2 * hiddenBit * 2 ^ e) : Scale q (max e (-1074)) := by
  rcases le_total (-1074) e with he | he
  · rw [max_eq_left he]
    exact ⟨he, hlt, fun _ => hle⟩
  · rw [max_eq_right he]
    refine ⟨le_refl _, hlt.trans_le ?_, fun hne => absurd rfl hne⟩
    have hpow : (2 : ℚ) ^ e ≤ 2 ^ (-1074 : Int) := zpow_le_zpow_right₀ (by norm_num) he
    exact mul_le_mul_of_nonneg_left hpow (by positivity)

theorem scale_exponentOfRatio {num den : Nat} (hnum : 0 < num) (hden : 0 < den) :
    Scale ((num : ℚ) / den) (exponentOfRatio num den) := by
  obtain ⟨hlow, hhigh⟩ := ratio_bounds hnum hden
  generalize hguess : (num.log2 : Int) - den.log2 - 53 = guess
  have hlow' : (hiddenBit : ℚ) * 2 ^ guess ≤ num / den := by
    have hsum : (num.log2 : Int) - den.log2 - 1 = 52 + guess := by omega
    rw [hsum, zpow_add₀ (by norm_num), ← hiddenBit_eq] at hlow
    exact hlow.le
  have hhigh' : (num : ℚ) / den < 2 * hiddenBit * 2 ^ (guess + 1) := by
    have hsum : (num.log2 : Int) - den.log2 + 1 = 52 + (guess + 1) + 1 := by omega
    rw [hsum, two_zpow_succ, zpow_add₀ (by norm_num), ← hiddenBit_eq, ← mul_assoc] at hhigh
    exact hhigh
  have hdiv : ((scaleDown 2 num den guess).1 : ℚ) / (scaleDown 2 num den guess).2 =
      num / den / 2 ^ guess := scaleDown_div guess
  have hpos : 0 < (scaleDown 2 num den guess).2 := scaleDown_snd_pos (by norm_num) hden guess
  have hexponent : exponentOfRatio num den = max (if (scaleDown 2 num den guess).1 /
      (scaleDown 2 num den guess).2 < 2 * hiddenBit then guess else guess + 1) (-1074) := by
    rw [← hguess]
    rfl
  have hposq : (0 : ℚ) < (scaleDown 2 num den guess).2 := by exact_mod_cast hpos
  have hbits : (scaleDown 2 num den guess).1 / (scaleDown 2 num den guess).2 < 2 * hiddenBit ↔
      (num : ℚ) / den < 2 * hiddenBit * 2 ^ guess := by
    rw [Nat.div_lt_iff_lt_mul hpos, ← div_lt_iff₀ (two_zpow_pos guess)]
    rw [← hdiv, div_lt_iff₀ hposq]
    exact_mod_cast Iff.rfl
  rw [hexponent]
  split
  · next h => exact scale_of_bounds hlow' (hbits.mp h)
  · next h =>
    refine scale_of_bounds ?_ hhigh'
    have hge := not_lt.mp (mt hbits.mpr h)
    rw [two_zpow_succ]
    linarith

/-! ## Rounding to a magnitude -/

theorem Scale.covers_of_lt {q : ℚ} {e : Int} {mag : Nat} (h : Scale q e)
    (he : e < binaryExponent mag) : Covers mag q := by
  have hparts := parts mag
  have hle := h.le_exponent
  have hbits : (hiddenBit : ℚ) ≤ significand mag := by
    exact_mod_cast hparts.le_bits (by omega)
  have hpow : (2 : ℚ) ^ (e + 1) ≤ 2 ^ binaryExponent mag :=
    zpow_le_zpow_right₀ (by norm_num) (by omega)
  have hlt : q < value mag :=
    calc q < hiddenBit * 2 ^ (e + 1) := by
          have := h.lt_bits
          rw [two_zpow_succ]
          linarith
      _ ≤ significand mag * 2 ^ binaryExponent mag :=
          mul_le_mul hbits hpow (two_zpow_pos _).le (by positivity)
  exact (covers_value_iff.mpr (le_refl mag)).mono hlt.le

theorem Scale.not_covers_of_lt {q : ℚ} {e : Int} {mag : Nat} (h : Scale q e)
    (he : binaryExponent mag < e) : ¬Covers mag q := by
  have hparts := parts mag
  have hle := hparts.le_exponent
  have hbits : (significand mag : ℚ) + 1 ≤ 2 * hiddenBit := by
    exact_mod_cast hparts.lt_bits
  have hpow : (2 : ℚ) ^ (binaryExponent mag + 1) ≤ 2 ^ e :=
    zpow_le_zpow_right₀ (by norm_num) (by omega)
  have hnext : value (mag + 1) ≤ q :=
    calc value (mag + 1) = (significand mag + 1) * 2 ^ binaryExponent mag := value_succ mag
      _ ≤ 2 * hiddenBit * 2 ^ binaryExponent mag :=
          mul_le_mul_of_nonneg_right hbits (two_zpow_pos _).le
      _ = hiddenBit * 2 ^ (binaryExponent mag + 1) := by
          rw [two_zpow_succ]
          ring
      _ ≤ hiddenBit * 2 ^ e := mul_le_mul_of_nonneg_left hpow (by positivity)
      _ ≤ q := h.le_bits (by omega)
  intro hcovers
  exact absurd (covers_value_iff.mp (hcovers.mono hnext)) (by omega)

/-- A number at a scale, and the natural number that its significand is rounded to. -/
structure Rounded (q : ℚ) (e : Int) (r : Nat) : Prop extends Scale q e where
  le_iff (m : Nat) : r ≤ m ↔
    2 * q < (2 * m + 1) * 2 ^ e ∨ 2 * q = (2 * m + 1) * 2 ^ e ∧ m % 2 = 0

theorem Rounded.le_bound {q : ℚ} {e : Int} {r : Nat} (h : Rounded q e r) : r ≤ 2 * hiddenBit := by
  have hlt := h.lt_bits
  have hpos := two_zpow_pos e
  refine (h.le_iff _).mpr (.inl ?_)
  push_cast
  linarith

theorem Rounded.bound_le {q : ℚ} {e : Int} {r : Nat} (h : Rounded q e r) (he : e ≠ -1074) :
    hiddenBit ≤ r := by
  by_contra hlt
  have hr : r ≤ hiddenBit - 1 := by omega
  have hcast : ((hiddenBit - 1 : Nat) : ℚ) = hiddenBit - 1 := by norm_num [hiddenBit]
  have hle := h.le_bits he
  have hpos := two_zpow_pos e
  rw [h.le_iff, hcast] at hr
  rcases hr with hr | ⟨hr, _⟩ <;> linarith

theorem Rounded.covers_iff {q : ℚ} {r mag : Nat} (h : Rounded q (binaryExponent mag) r) :
    Covers mag q ↔ r ≤ significand mag := by
  rw [Binary64.covers_iff, h.le_iff]

theorem exists_rounded {num den : Nat} (hnum : 0 < num) (hden : 0 < den) :
    ∃ e r, Rounded ((num : ℚ) / den) e r ∧
      nearest num den = min infinity ((e + 1074).toNat * hiddenBit + r) := by
  generalize he : exponentOfRatio num den = e
  have hpos : 0 < (scaleDown 2 num den e).2 := scaleDown_snd_pos (by norm_num) hden e
  have hdiv : ((scaleDown 2 num den e).1 : ℚ) / (scaleDown 2 num den e).2 = num / den / 2 ^ e :=
    scaleDown_div e
  refine ⟨e, roundHalfEven (scaleDown 2 num den e).1 (scaleDown 2 num den e).2,
    ⟨he ▸ scale_exponentOfRatio hnum hden, fun m => ?_⟩, ?_⟩
  · rw [roundHalfEven_le_iff_div hpos, hdiv, ← mul_div_assoc, div_lt_iff₀ (two_zpow_pos e),
      div_eq_iff (two_zpow_pos e).ne']
  · rw [nearest, if_neg hnum.ne', ← he]

/-- A ratio is rounded to a finite magnitude or one below it if and only if it does not lie beyond
the middle above this magnitude. -/
theorem nearest_le_iff {num den mag : Nat} (hden : 0 < den) (hmag : mag < infinity) :
    nearest num den ≤ mag ↔ Covers mag ((num : ℚ) / den) := by
  rcases Nat.eq_zero_or_pos num with rfl | hnum
  · rw [nearest_zero, Nat.cast_zero, zero_div, ← value_zero, covers_value_iff]
  · obtain ⟨e, r, hr, hnearest⟩ := exists_rounded hnum hden
    have hrle := hr.le_bound
    have hler := hr.bound_le
    have hle := hr.le_exponent
    obtain ⟨hsum, hlem, hltm, hgem⟩ := parts mag
    rw [hnearest]
    simp only [hiddenBit, infinity] at *
    -- with different exponents the significands, which have 53 bits, do not matter
    rcases lt_trichotomy e (binaryExponent mag) with he | rfl | he
    · refine iff_of_true ?_ (hr.toScale.covers_of_lt he)
      omega
    · rw [hr.covers_iff]
      omega
    · refine iff_of_false ?_ (hr.toScale.not_covers_of_lt he)
      omega

end DiceNotation.Binary64
