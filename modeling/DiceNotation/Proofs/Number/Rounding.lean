import DiceNotation.Proofs.Number.Ordinals

/-!
# Integers as floats

An integer becomes the float nearest to it: its leading 53 bits are kept, and the others say whether
they are rounded up. The order of integers survives this, though integers beyond 2^53 may fall
together.

* `round_eq`: the magnitude of the nearest float.
* `ordinal_floatOfInt_mono`: of two integers, the greater one never has the smaller float.
-/

namespace DiceNotation.Floats

open Float.Model hiding pack unpack
open Float.Model.UnpackedFloat

/-! ## Dropping bits -/

/-- A mantissa and the two bits that follow it, as one number. -/
def weight (em : ExtendedMantissa) : Nat :=
  4 * em.mantissa + 2 * em.roundBit.toNat + em.stickyBit.toNat

theorem toNat_odd (m : Nat) : (m % 2 != 0).toNat = m % 2 := by
  rcases Nat.mod_two_eq_zero_or_one m with h | h <;> rw [h] <;> rfl

/-- All that matters of the bits behind the first of them is whether there are any. -/
theorem weight_shiftRightOne (em : ExtendedMantissa) :
    weight em.shiftRightOne = 2 * (weight em / 4) + min 1 (weight em % 4) := by
  rcases em with ⟨m, r, s⟩
  have hodd := toNat_odd m
  simp only [weight, ExtendedMantissa.shiftRightOne, hodd]
  cases r <;> cases s <;> simp <;> omega

theorem weight_shiftRightOne_mono {em em' : ExtendedMantissa} (h : weight em ≤ weight em') :
    weight em.shiftRightOne ≤ weight em'.shiftRightOne := by
  rw [weight_shiftRightOne, weight_shiftRightOne]
  omega

theorem shiftRight_succ (em : ExtendedMantissa) (n : Nat) :
    em >>> (n + 1) = (em >>> n).shiftRightOne := rfl

theorem weight_shiftRight_mono {em em' : ExtendedMantissa} (h : weight em ≤ weight em') (n : Nat) :
    weight (em >>> n) ≤ weight (em' >>> n) := by
  induction n with
  | zero => exact h
  | succ n ih =>
    rw [shiftRight_succ, shiftRight_succ]
    exact weight_shiftRightOne_mono ih

theorem roundedMantissa_mono {em em' : ExtendedMantissa} (h : weight em ≤ weight em') :
    em.roundedMantissa ≤ em'.roundedMantissa := by
  rcases em with ⟨m, r, s⟩
  rcases em' with ⟨m', r', s'⟩
  simp only [weight] at h
  cases r <;> cases s <;> cases r' <;> cases s' <;>
    simp [ExtendedMantissa.roundedMantissa, ExtendedMantissa.accuracy,
      Accuracy.roundToNearestEven] at h ⊢ <;> omega

/-- The mantissa that is left when `n` bits are dropped and the rest is rounded. -/
def dropBits (m n : Nat) : Nat := ((⟨m, false, false⟩ : ExtendedMantissa) >>> n).roundedMantissa

theorem dropBits_zero (m : Nat) : dropBits m 0 = m := rfl

theorem dropBits_mono {m m' : Nat} (h : m ≤ m') (n : Nat) : dropBits m n ≤ dropBits m' n := by
  refine roundedMantissa_mono (weight_shiftRight_mono ?_ n)
  simp only [weight]
  omega

theorem shiftRight_two_pow (k n : Nat) :
    (⟨2 ^ (k + n), false, false⟩ : ExtendedMantissa) >>> n = ⟨2 ^ k, false, false⟩ := by
  induction n generalizing k with
  | zero => rfl
  | succ n ih =>
    have hexponent : k + (n + 1) = k + 1 + n := by omega
    have hdouble : 2 ^ (k + 1) = 2 * 2 ^ k := Nat.pow_succ'
    rw [shiftRight_succ, hexponent, ih, ExtendedMantissa.shiftRightOne, hdouble]
    simp

theorem dropBits_two_pow (k n : Nat) : dropBits (2 ^ (k + n)) n = 2 ^ k := by
  rw [dropBits, shiftRight_two_pow]
  rfl

/-- What is left of `k + n` bits after the first, without the last `n` of them. -/
theorem dropBits_bounds {m k n : Nat} (hlo : 2 ^ (k + n) ≤ m) (hhi : m < 2 ^ (k + n + 1)) :
    2 ^ k ≤ dropBits m n ∧ dropBits m n ≤ 2 ^ (k + 1) := by
  constructor
  · rw [← dropBits_two_pow k n]
    exact dropBits_mono hlo n
  · have hexponent : k + n + 1 = k + 1 + n := by omega
    rw [← dropBits_two_pow (k + 1) n]
    refine dropBits_mono ?_ n
    rw [← hexponent]
    exact Nat.le_of_lt hhi

/-! ## Rounding to 53 bits -/

theorem targetExponent_eq {m : Nat} {e : Int} (h : -1074 ≤ m.log2 + e - 52) :
    Format.binary64.targetExponent (totalExponent m e) = m.log2 + e - 52 := by
  have hbits : (Format.binary64.mantissaBits : Int) = 53 := rfl
  have hmin : Format.binary64.minExponent = -1074 := rfl
  rw [Format.targetExponent, totalExponent, hbits, hmin]
  omega

theorem log2_shiftLeft {n : Nat} (h : n ≠ 0) (k : Nat) : (n <<< k).log2 = n.log2 + k := by
  induction k with
  | zero => rfl
  | succ k ih =>
    have hne : n <<< k ≠ 0 := by
      rw [Nat.shiftLeft_eq]
      exact Nat.mul_ne_zero h (Nat.ne_of_gt (Nat.two_pow_pos k))
    rw [Nat.shiftLeft_succ, Nat.log2_two_mul hne, ih]
    omega

/-- The mantissa of the float nearest to an integer. A mantissa that was rounded up to `2 ^ 53`
counts with the exponent it had before. -/
def nearestMantissa (n : Nat) : Nat := dropBits (n <<< (52 - n.log2)) (n.log2 - 52)

theorem nearestMantissa_bounds {n : Nat} (h : n ≠ 0) :
    2 ^ 52 ≤ nearestMantissa n ∧ nearestMantissa n ≤ 2 ^ 53 := by
  have hshift : 52 + (n.log2 - 52) = n.log2 + (52 - n.log2) := by omega
  have hne : n <<< (52 - n.log2) ≠ 0 := by
    rw [Nat.shiftLeft_eq]
    exact Nat.mul_ne_zero h (Nat.ne_of_gt (Nat.two_pow_pos _))
  have hlog := log2_shiftLeft h (52 - n.log2)
  rw [← hshift] at hlog
  obtain ⟨hlo, hhi⟩ := (Nat.log2_eq_iff hne).mp hlog
  exact dropBits_bounds hlo hhi

/-- A mantissa of 53 bits is left as it is, and one that was rounded up to `2 ^ 53` is halved. -/
theorem shiftToTargetExponent_rounded {r : Nat} {e : Int} (hlo : 2 ^ 52 ≤ r) (hhi : r ≤ 2 ^ 53)
    (he : -1074 ≤ e) :
    shiftToTargetExponent .binary64 r e .exact =
      if r = 2 ^ 53 then (⟨2 ^ 52, false, false⟩, e + 1) else (⟨r, false, false⟩, e) := by
  split
  · next hcarry =>
    have hlog : r.log2 = 53 := by
      rw [hcarry]
      exact Nat.log2_two_pow
    have htarget : Format.binary64.targetExponent (totalExponent r e) = e + 1 := by
      rw [targetExponent_eq (by omega), hlog]
      omega
    have hshift : (e + 1 - e).toNat = 1 := by omega
    rw [shiftToTargetExponent, htarget, shiftToExponent, hshift, hcarry]
    rfl
  · next hfits =>
    have hlog : r.log2 = 52 := (Nat.log2_eq_iff (by omega)).mpr ⟨hlo, by omega⟩
    have htarget : Format.binary64.targetExponent (totalExponent r e) = e := by
      rw [targetExponent_eq (by omega), hlog]
      omega
    have hshift : (e - e).toNat = 0 := by omega
    rw [shiftToTargetExponent, htarget, shiftToExponent, hshift]
    simp only [Int.ofNat_zero, Int.add_zero]
    rfl

theorem roundWithAccuracy_eq {s : UnpackedFloat.Sign} {m : Nat} {e e₁ e₂ : Int}
    {em em' : ExtendedMantissa} (hfirst : shiftToTargetExponent .binary64 m e .exact = (em, e₁))
    (hsecond : shiftToTargetExponent .binary64 em.roundedMantissa e₁ .exact = (em', e₂))
    (hpos : 0 < em'.mantissa) :
    roundWithAccuracy .binary64 s m e .exact = .finite s em'.mantissa e₂ hpos := by
  rw [roundWithAccuracy, hfirst]
  dsimp only
  rw [hsecond]
  exact dif_neg (Nat.ne_of_gt hpos)

/-- An integer, shifted to 53 bits or more, drops all but 53 of them. -/
theorem shiftToTargetExponent_integer {n : Nat} (hn : n ≠ 0) :
    shiftToTargetExponent .binary64 (n <<< (52 - n.log2)) (0 - (52 - n.log2 : Nat)) .exact =
      ((⟨n <<< (52 - n.log2), false, false⟩ : ExtendedMantissa) >>> (n.log2 - 52),
        (n.log2 : Int) - 52) := by
  have hlog := log2_shiftLeft hn (52 - n.log2)
  have htarget : Format.binary64.targetExponent
      (totalExponent (n <<< (52 - n.log2)) (0 - (52 - n.log2 : Nat))) = n.log2 - 52 := by
    rw [targetExponent_eq (by omega), hlog]
    omega
  have hdown : ((n.log2 : Int) - 52 - (0 - (52 - n.log2 : Nat))).toNat = n.log2 - 52 := by omega
  have hexponent : (0 - (52 - n.log2 : Nat) + (n.log2 - 52 : Nat) : Int) = n.log2 - 52 := by omega
  rw [shiftToTargetExponent, htarget, shiftToExponent, hdown]
  exact Prod.ext rfl hexponent

/-- The float that a positive integer is rounded to has a mantissa of 53 bits, and exponent and
mantissa make up what the rounding gave. -/
theorem round_eq (s : UnpackedFloat.Sign) {n : Nat} (hn : n ≠ 0) (hsize : n.log2 ≤ 1000) :
    ∃ m e h, UnpackedFloat.round .binary64 s n 0 = .finite s m e h ∧
      IsCanonical (.finite s m e h) ∧
      size (.finite s m e h) = (n.log2 + 1022) * 2 ^ 52 + nearestMantissa n := by
  obtain ⟨hlo, hhi⟩ := nearestMantissa_bounds hn
  have htarget : Format.binary64.targetExponent (totalExponent n 0) = n.log2 - 52 := by
    rw [targetExponent_eq (by omega)]
    omega
  have hup : (0 - ((n.log2 : Int) - 52)).toNat = 52 - n.log2 := by omega
  have hround : UnpackedFloat.round .binary64 s n 0 =
      roundWithAccuracy .binary64 s (n <<< (52 - n.log2)) (0 - (52 - n.log2 : Nat)) .exact := by
    rw [UnpackedFloat.round, htarget, decreaseExponent, hup]
  have hfirst := shiftToTargetExponent_integer hn
  have hsecond := shiftToTargetExponent_rounded hlo hhi
    (show -1074 ≤ (n.log2 : Int) - 52 by omega)
  rw [hround]
  dsimp only [IsCanonical, size, Binary64.hiddenBit]
  split at hsecond
  · next hcarry =>
    refine ⟨_, _, _, roundWithAccuracy_eq hfirst hsecond (Nat.two_pow_pos 52), ?_, ?_⟩
    · dsimp only
      omega
    · rw [hcarry]
      dsimp only
      omega
  · next hfits =>
    refine ⟨_, _, _, roundWithAccuracy_eq hfirst hsecond (Nat.lt_of_lt_of_le (by decide) hlo),
      ?_, ?_⟩
    · dsimp only
      omega
    · dsimp only
      omega

/-! ## The magnitude of an integer -/

/-- The magnitude of the float nearest to an integer that is not negative. -/
def magnitudeOfNat (n : Nat) : Nat :=
  if n = 0 then 0 else (n.log2 + 1022) * 2 ^ 52 + nearestMantissa n

theorem log2_mono {m n : Nat} (hm : m ≠ 0) (h : m ≤ n) : m.log2 ≤ n.log2 :=
  (Nat.le_log2 (by omega)).mpr (Nat.le_trans (Nat.log2_self_le hm) h)

/-- Of two integers, the greater one never has the smaller magnitude. -/
theorem magnitudeOfNat_mono {m n : Nat} (h : m ≤ n) : magnitudeOfNat m ≤ magnitudeOfNat n := by
  unfold magnitudeOfNat
  split
  · exact Nat.zero_le _
  · next hm =>
    have hn : n ≠ 0 := by omega
    rw [if_neg hn]
    obtain ⟨hmlo, hmhi⟩ := nearestMantissa_bounds hm
    obtain ⟨hnlo, hnhi⟩ := nearestMantissa_bounds hn
    rcases Nat.eq_or_lt_of_le (log2_mono hm h) with hlog | hlog
    · -- the same bits are dropped from both
      have hmantissa : nearestMantissa m ≤ nearestMantissa n := by
        unfold nearestMantissa
        rw [hlog, Nat.shiftLeft_eq, Nat.shiftLeft_eq]
        exact dropBits_mono (Nat.mul_le_mul_right _ h) _
      omega
    · -- rounding up to the next power of two is all that the smaller one can reach
      omega

/-- An integer of up to 53 bits loses none of them. -/
theorem nearestMantissa_eq {n : Nat} (h : n.log2 ≤ 52) :
    nearestMantissa n = n * 2 ^ (52 - n.log2) := by
  have hdrop : n.log2 - 52 = 0 := by omega
  rw [nearestMantissa, hdrop, dropBits_zero, Nat.shiftLeft_eq]

theorem nearestMantissa_lt {n : Nat} (hn : n ≠ 0) (h : n < 2 ^ 53) :
    nearestMantissa n < 2 ^ 53 := by
  have hlog : n.log2 < 53 := (Nat.log2_lt hn).mpr h
  have hexponent : n.log2 + 1 + (52 - n.log2) = 53 := by omega
  rw [nearestMantissa_eq (by omega), ← hexponent, Nat.pow_add]
  exact Nat.mul_lt_mul_of_pos_right Nat.lt_log2_self (Nat.two_pow_pos _)

/-- Integers up to `2 ^ 53` have floats of their own. -/
theorem magnitudeOfNat_lt {m n : Nat} (h : m < n) (hn : n ≤ 2 ^ 53) :
    magnitudeOfNat m < magnitudeOfNat n := by
  have hn0 : n ≠ 0 := by omega
  obtain ⟨hnlo, hnhi⟩ := nearestMantissa_bounds hn0
  unfold magnitudeOfNat
  rw [if_neg hn0]
  split
  · omega
  · next hm =>
    have hmlt := nearestMantissa_lt hm (by omega)
    rcases Nat.eq_or_lt_of_le (log2_mono hm (Nat.le_of_lt h)) with hlog | hlog
    · have hsmall : m.log2 ≤ 52 := Nat.le_of_lt_succ ((Nat.log2_lt hm).mpr (by omega))
      have hmantissa : nearestMantissa m < nearestMantissa n := by
        rw [nearestMantissa_eq hsmall, nearestMantissa_eq (by omega), hlog]
        exact Nat.mul_lt_mul_of_pos_right h (Nat.two_pow_pos _)
      omega
    · omega

/-! ## Integers -/

theorem unpack_ofUInt64 (n : UInt64) :
    n.toFloat.toModel.unpack =
      unpack .binary64
        (pack .binary64 (UnpackedFloat.normalize .binary64 n.toNat 0 .positive)) := rfl

theorem normalize_eq {n : Nat} (hn : n ≠ 0) :
    UnpackedFloat.normalize .binary64 n 0 .positive =
      UnpackedFloat.round .binary64 .positive n 0 := by
  have hpos : compare (n : Int) 0 = .gt := Int.compare_eq_gt.mpr (by omega)
  rw [UnpackedFloat.normalize, hpos]
  rfl

/-- The float of an integer that is not negative has no sign. -/
theorem unpack_toFloat (n : UInt64) :
    n.toFloat.toModel.unpack ≠ .notANumber ∧ sign n.toFloat.toModel.unpack = .positive ∧
      size n.toFloat.toModel.unpack = magnitudeOfNat n.toNat := by
  rw [unpack_ofUInt64, magnitudeOfNat]
  by_cases hn : n.toNat = 0
  · rw [hn, if_pos rfl]
    exact ⟨nofun, rfl, rfl⟩
  · have hlog : n.toNat.log2 ≤ 1000 := by
      have hlt := (Nat.log2_lt hn).mpr n.toNat_lt
      omega
    obtain ⟨m, e, h, hround, hcanonical, hsize⟩ := round_eq .positive hn hlog
    rw [if_neg hn, normalize_eq hn, hround, unpack_pack hcanonical]
    exact ⟨nofun, rfl, hsize⟩

theorem toInt_eq_cond (n : Int64) :
    n.toInt = if 2 * n.toUInt64.toNat < 2 ^ 64 then (n.toUInt64.toNat : Int)
      else n.toUInt64.toNat - (2 ^ 64 : Nat) :=
  BitVec.toInt_eq_toNat_cond n.toBitVec

theorem toNat_toUInt64_of_nonneg {n : Int64} (h : 0 ≤ n.toInt) :
    n.toUInt64.toNat = n.toInt.natAbs := by
  have hlt := n.toUInt64.toNat_lt
  have hcond := toInt_eq_cond n
  split at hcond <;> omega

theorem toNat_toUInt64_neg {n : Int64} (h : n.toInt < 0) :
    (-n).toUInt64.toNat = n.toInt.natAbs := by
  have hlt := n.toUInt64.toNat_lt
  have hcond := toInt_eq_cond n
  rw [Int64.toUInt64_neg, UInt64.toNat_neg]
  change (2 ^ 64 - n.toUInt64.toNat) % 2 ^ 64 = _
  split at hcond <;> omega

theorem unpack_neg (x : Float) : (-x).toModel.unpack = x.toModel.unpack.neg :=
  (fields_unpack _).neg.unpack_pack

theorem neg_parts {u : UnpackedFloat} (h : u ≠ .notANumber) :
    u.neg ≠ .notANumber ∧ sign u.neg = -sign u ∧ size u.neg = size u := by
  cases u with
  | notANumber => exact absurd rfl h
  | _ => exact ⟨nofun, rfl, rfl⟩

/-- The float of an integer has its sign. -/
theorem unpack_floatOfInt (n : Int64) :
    (floatOfInt n).toModel.unpack ≠ .notANumber ∧
      sign (floatOfInt n).toModel.unpack = (if n.toInt < 0 then .negative else .positive) ∧
      size (floatOfInt n).toModel.unpack = magnitudeOfNat n.toInt.natAbs := by
  by_cases hneg : n.toInt < 0
  · obtain ⟨hne, hsign, hsize⟩ := unpack_toFloat (-n).toUInt64
    obtain ⟨hne', hsign', hsize'⟩ := neg_parts hne
    rw [floatOfInt, if_pos (Int64.lt_iff_toInt_lt.mpr hneg), if_pos hneg, unpack_neg, hsign',
      hsize',
      hsign, hsize, toNat_toUInt64_neg hneg]
    exact ⟨hne', rfl, rfl⟩
  · obtain ⟨hne, hsign, hsize⟩ := unpack_toFloat n.toUInt64
    rw [floatOfInt, if_neg fun h => hneg (Int64.lt_iff_toInt_lt.mp h), if_neg hneg, hsize,
      toNat_toUInt64_of_nonneg (by omega)]
    exact ⟨hne, hsign, rfl⟩

theorem isNaN_floatOfInt (n : Int64) : (floatOfInt n).isNaN = false := by
  have hne := (unpack_floatOfInt n).1
  change (floatOfInt n).toModel.unpack.isNaN = false
  cases hu : (floatOfInt n).toModel.unpack with
  | notANumber => exact absurd hu hne
  | _ => rfl

theorem isNegative_floatOfInt (n : Int64) :
    Binary64.isNegative (floatOfInt n) = decide (n.toInt < 0) := by
  rw [isNegative_unpack (isNaN_floatOfInt n), (unpack_floatOfInt n).2.1]
  by_cases hneg : n.toInt < 0
  · rw [if_pos hneg, decide_eq_true hneg]
    rfl
  · rw [if_neg hneg, decide_eq_false hneg]
    rfl

theorem ordinal_floatOfInt (n : Int64) :
    ordinal (floatOfInt n) =
      if n.toInt < 0 then -(magnitudeOfNat n.toInt.natAbs : Int)
      else magnitudeOfNat n.toInt.natAbs := by
  rw [ordinal, isNegative_floatOfInt, ← size_unpack (isNaN_floatOfInt n),
    (unpack_floatOfInt n).2.2]
  simp only [decide_eq_true_eq]

/-- Of two integers, the greater one never has the smaller float. -/
theorem ordinal_floatOfInt_mono {m n : Int64} (h : m.toInt ≤ n.toInt) :
    ordinal (floatOfInt m) ≤ ordinal (floatOfInt n) := by
  rw [ordinal_floatOfInt, ordinal_floatOfInt]
  split
  · next hm =>
    split
    · have hmagnitude : magnitudeOfNat n.toInt.natAbs ≤ magnitudeOfNat m.toInt.natAbs :=
        magnitudeOfNat_mono (by omega)
      omega
    · omega
  · next hm =>
    have hmagnitude : magnitudeOfNat m.toInt.natAbs ≤ magnitudeOfNat n.toInt.natAbs :=
      magnitudeOfNat_mono (by omega)
    rw [if_neg (by omega)]
    omega

/-- Integers up to `2 ^ 53` in size have floats of their own. -/
theorem ordinal_floatOfInt_lt {m n : Int64} (h : m.toInt < n.toInt)
    (hm : m.toInt.natAbs ≤ 2 ^ 53) (hn : n.toInt.natAbs ≤ 2 ^ 53) :
    ordinal (floatOfInt m) < ordinal (floatOfInt n) := by
  rw [ordinal_floatOfInt, ordinal_floatOfInt]
  split
  · split
    · have hmagnitude : magnitudeOfNat n.toInt.natAbs < magnitudeOfNat m.toInt.natAbs :=
        magnitudeOfNat_lt (by omega) hm
      omega
    · have hmagnitude : magnitudeOfNat 0 < magnitudeOfNat m.toInt.natAbs :=
        magnitudeOfNat_lt (by omega) hm
      omega
  · have hmagnitude : magnitudeOfNat m.toInt.natAbs < magnitudeOfNat n.toInt.natAbs :=
      magnitudeOfNat_lt (by omega) hn
    rw [if_neg (by omega)]
    omega

/-- The same for the total order, as no integer becomes a negative zero. -/
theorem totalOrderKey_floatOfInt_mono {m n : Int64} (h : m.toInt ≤ n.toInt) :
    totalOrderKey (floatOfInt m) ≤ totalOrderKey (floatOfInt n) := by
  have hordinal := ordinal_floatOfInt_mono h
  rw [totalOrderKey_eq, totalOrderKey_eq, isNegative_floatOfInt, isNegative_floatOfInt]
  simp only [decide_eq_true_eq]
  split
  · split <;> omega
  · rw [if_neg (by omega)]
    exact hordinal

end DiceNotation.Floats
