import DiceNotation.Number.Sorting
import DiceNotation.Proofs.Number.Floats

/-!
# Floats as integers

Floats are compared by sign, exponent and mantissa. Their bits spell the same order: a float that is
not NaN stands where its magnitude, with its sign, stands among the integers.

* `size_unpack`: exponent and mantissa make up the magnitude.
* `compareFloats?_eq`: floats are compared as their ordinals are.
* `compareFloats?_of_isNaN`: only NaN is comparable with nothing.
* `totalOrderKey_eq`: the total order parts the two zeros and keeps all else in place.
-/

namespace DiceNotation.Floats

open Float.Model hiding pack unpack
open Float.Model.UnpackedFloat

/-! ## The place of a float -/

/-- The place of a float among all floats, both zeros in the middle. -/
def ordinal (x : Float) : Int :=
  if Binary64.isNegative x then -(Binary64.magnitude x : Int) else Binary64.magnitude x

theorem totalOrderKey_eq (x : Float) :
    totalOrderKey x = if Binary64.isNegative x then ordinal x - 1 else ordinal x := by
  unfold totalOrderKey ordinal
  split <;> rfl

/-- The magnitude of a float that is taken apart; NaN has none. -/
def size : UnpackedFloat → Nat
  | .infinity _ => Binary64.infinity
  | .notANumber => 0
  | .zero _ => 0
  | .finite _ m e _ => (e + 1074).toNat * Binary64.hiddenBit + m

/-- The sign of a float that is taken apart. -/
def sign : UnpackedFloat → UnpackedFloat.Sign
  | .infinity s | .zero s | .finite s _ _ _ => s
  | .notANumber => .positive

/-- The ordinal of a float that is taken apart. -/
def place (u : UnpackedFloat) : Int := (sign u).apply (size u)

/-- Whether the mantissa has the number of bits that goes with the exponent, as in the floats that
are taken apart. -/
def IsCanonical : UnpackedFloat → Prop
  | .finite _ m e _ => -1074 ≤ e ∧ e ≤ 971 ∧ m < 2 * Binary64.hiddenBit ∧
      (e ≠ -1074 → Binary64.hiddenBit ≤ m)
  | _ => True

theorem Fields.isCanonical {s : UnpackedFloat.Sign} {e : BitVec 11} {m : BitVec 52}
    {u : UnpackedFloat} (h : Fields s e m u) : IsCanonical u := by
  have hm := m.isLt
  cases h with
  | infinity he hm => trivial
  | notANumber he hm => trivial
  | zero he hm => trivial
  | subnormal hpos he hm' =>
    dsimp only [IsCanonical, Binary64.hiddenBit]
    omega
  | normal hpos he he' =>
    have hlt := e.isLt
    have hne : e.toNat ≠ 2047 := fun h => he (BitVec.eq_of_toNat_eq h)
    have hne' : e.toNat ≠ 0 := fun h => he' (BitVec.eq_of_toNat_eq h)
    dsimp only [IsCanonical, Binary64.hiddenBit]
    omega

theorem Fields.size_eq {s : UnpackedFloat.Sign} {e : BitVec 11} {m : BitVec 52}
    {u : UnpackedFloat} (h : Fields s e m u) (hu : u ≠ .notANumber) :
    size u = e.toNat * 2 ^ 52 + m.toNat := by
  cases h with
  | infinity he hm =>
    rw [he, hm]
    rfl
  | notANumber he hm => exact absurd rfl hu
  | zero he hm =>
    rw [he, hm]
    rfl
  | subnormal hpos he hm =>
    rw [he]
    dsimp only [size, Binary64.hiddenBit]
    rfl
  | normal hpos he he' =>
    have hne : e.toNat ≠ 0 := fun h => he' (BitVec.eq_of_toNat_eq h)
    dsimp only [size, Binary64.hiddenBit]
    omega

theorem Fields.sign_eq {s : UnpackedFloat.Sign} {e : BitVec 11} {m : BitVec 52}
    {u : UnpackedFloat} (h : Fields s e m u) (hu : u ≠ .notANumber) : sign u = s := by
  cases h with
  | notANumber he hm => exact absurd rfl hu
  | _ => rfl

theorem exists_fields {u : UnpackedFloat} (h : IsCanonical u) : ∃ s e m, Fields s e m u := by
  cases u with
  | infinity s => exact ⟨s, -1#11, 0#52, .infinity rfl rfl⟩
  | notANumber => exact ⟨.positive, -1#11, 1#52, .notANumber rfl (by decide)⟩
  | zero s => exact ⟨s, 0#11, 0#52, .zero rfl rfl⟩
  | finite s m e hm =>
    dsimp only [IsCanonical, Binary64.hiddenBit] at h
    by_cases hnormal : 2 ^ 52 ≤ m
    · obtain ⟨m', rfl⟩ : ∃ m' : BitVec 52, m = 2 ^ 52 + m'.toNat :=
        ⟨BitVec.ofNat 52 (m - 2 ^ 52), by rw [BitVec.toNat_ofNat]; omega⟩
      obtain ⟨e', rfl⟩ : ∃ e' : BitVec 11, e = e'.toNat - 1075 :=
        ⟨BitVec.ofNat 11 (e + 1075).toNat, by rw [BitVec.toNat_ofNat]; omega⟩
      refine ⟨s, e', m', .normal hm ?_ ?_⟩
      · rintro rfl
        change _ ∧ ((2047 : Nat) - 1075 : Int) ≤ 971 ∧ _ at h
        omega
      · rintro rfl
        change (-1074 : Int) ≤ ((0 : Nat) : Int) - 1075 ∧ _ at h
        omega
    · obtain ⟨m', rfl⟩ : ∃ m' : BitVec 52, m = m'.toNat :=
        ⟨BitVec.ofNat 52 m, by rw [BitVec.toNat_ofNat]; omega⟩
      obtain rfl : e = -1074 := by omega
      exact ⟨s, 0#11, m', .subnormal hm rfl (toNat_pos_iff.mp hm)⟩

/-- What is canonical is put together and taken apart again. -/
theorem unpack_pack {u : UnpackedFloat} (h : IsCanonical u) :
    unpack .binary64 (pack .binary64 u) = u := by
  obtain ⟨s, e, m, hfields⟩ := exists_fields h
  exact hfields.unpack_pack

/-! ## The bits of a float -/

theorem toNat_unpackExponent (b : BitVec Format.binary64.numBits) :
    (unpackExponent b).toNat = b.toNat / 2 ^ 52 % 2 ^ 11 := by
  rw [unpackExponent_eq, BitVec.extractLsb'_toNat, Nat.shiftRight_eq_div_pow]

theorem toNat_unpackMantissa (b : BitVec Format.binary64.numBits) :
    (unpackMantissa b).toNat = b.toNat % 2 ^ 52 := by
  rw [unpackMantissa_eq, BitVec.extractLsb'_toNat, Nat.shiftRight_zero]

theorem toNat_unpackSign (b : BitVec Format.binary64.numBits) :
    (unpackSign b).toNat = b.toNat / 2 ^ 63 % 2 := by
  rw [unpackSign_eq, BitVec.extractLsb'_toNat, Nat.shiftRight_eq_div_pow]

theorem isNegative_eq (x : Float) :
    Binary64.isNegative x =
      (UnpackedFloat.Sign.ofBitVec (@unpackSign .binary64 x.toBits.toBitVec) == .negative) := by
  have hlt : x.toBits.toNat < 2 ^ 64 := x.toBits.toNat_lt
  have hsign : (@unpackSign .binary64 x.toBits.toBitVec).toNat = x.toBits.toNat / 2 ^ 63 % 2 :=
    toNat_unpackSign _
  have hnegative : Binary64.isNegative x = decide (2 ^ 63 ≤ x.toBits.toNat) := rfl
  rw [hnegative]
  unfold UnpackedFloat.Sign.ofBitVec
  split
  · next hzero =>
    rw [hzero] at hsign
    change 0 = _ at hsign
    exact decide_eq_false (by omega)
  · next hone =>
    have hne : (@unpackSign .binary64 x.toBits.toBitVec).toNat ≠ 0 := fun h =>
      hone (BitVec.eq_of_toNat_eq h)
    exact decide_eq_true (by omega)

theorem ne_notANumber {x : Float} (hx : x.isNaN = false) : x.toModel.unpack ≠ .notANumber := by
  intro h
  have hnan : x.isNaN = x.toModel.unpack.isNaN := rfl
  rw [hx, h] at hnan
  cases hnan

/-- Exponent and mantissa make up the magnitude. -/
theorem size_unpack {x : Float} (hx : x.isNaN = false) :
    size x.toModel.unpack = Binary64.magnitude x := by
  have hsize := (fields_unpack x.toBits.toBitVec).size_eq (ne_notANumber hx)
  rw [toNat_unpackExponent, toNat_unpackMantissa] at hsize
  change size x.toModel.unpack = x.toBits.toNat / 2 ^ 52 % 2 ^ 11 * 2 ^ 52 + x.toBits.toNat % 2 ^ 52
    at hsize
  rw [hsize, Binary64.magnitude, Binary64.signBit]
  omega

theorem isNegative_unpack {x : Float} (hx : x.isNaN = false) :
    Binary64.isNegative x = (sign x.toModel.unpack == .negative) := by
  have hsign := (fields_unpack x.toBits.toBitVec).sign_eq (ne_notANumber hx)
  change sign x.toModel.unpack = _ at hsign
  rw [isNegative_eq, hsign]

theorem place_unpack {x : Float} (hx : x.isNaN = false) :
    place x.toModel.unpack = ordinal x := by
  rw [place, size_unpack hx, ordinal, isNegative_unpack hx]
  cases sign x.toModel.unpack <;> rfl

/-! ## Comparison -/

theorem compare_finite {m m' : Nat} {e e' : Int} {h : 0 < m} {h' : 0 < m'}
    {s s' : UnpackedFloat.Sign}
    (hc : IsCanonical (.finite s m e h)) (hc' : IsCanonical (.finite s' m' e' h')) :
    (compare e e').then (compare m m') =
      compare (size (.finite s m e h) : Int) (size (.finite s' m' e' h')) := by
  dsimp only [IsCanonical, Binary64.hiddenBit] at hc hc'
  dsimp only [size, Binary64.hiddenBit]
  rcases Int.lt_trichotomy e e' with hlt | rfl | hgt
  · rw [Int.compare_eq_lt.mpr hlt]
    exact (Int.compare_eq_lt.mpr (by omega)).symm
  · rw [Int.compare_eq_eq.mpr rfl]
    rcases Nat.lt_trichotomy m m' with hlt | rfl | hgt
    · rw [Nat.compare_eq_lt.mpr hlt]
      exact (Int.compare_eq_lt.mpr (by omega)).symm
    · rw [Nat.compare_eq_eq.mpr rfl]
      exact (Int.compare_eq_eq.mpr rfl).symm
    · rw [Nat.compare_eq_gt.mpr hgt]
      exact (Int.compare_eq_gt.mpr (by omega)).symm
  · rw [Int.compare_eq_gt.mpr hgt]
    exact (Int.compare_eq_gt.mpr (by omega)).symm

theorem size_finite {s : UnpackedFloat.Sign} {m : Nat} {e : Int} {h : 0 < m}
    (hc : IsCanonical (.finite s m e h)) :
    0 < size (.finite s m e h) ∧ size (.finite s m e h) < Binary64.infinity := by
  dsimp only [IsCanonical, Binary64.hiddenBit] at hc
  dsimp only [size, Binary64.infinity, Binary64.hiddenBit]
  omega

theorem place_negative {m : Nat} {e : Int} {h : 0 < m}
    (hc : IsCanonical (.finite .negative m e h)) : place (.finite .negative m e h) < 0 := by
  have hpos := (size_finite hc).1
  change -(size (.finite .negative m e h) : Int) < 0
  omega

theorem place_positive {m : Nat} {e : Int} {h : 0 < m}
    (hc : IsCanonical (.finite .positive m e h)) : 0 < place (.finite .positive m e h) :=
  Int.ofNat_lt.mpr (size_finite hc).1

/-- Between the infinities lies all that is smaller than them, whatever its sign. -/
theorem apply_within (s : UnpackedFloat.Sign) {n k : Nat} (h : n < k) :
    -(k : Int) < s.apply n ∧ s.apply n < k := by
  cases s with
  | negative =>
    change -(k : Int) < -(n : Int) ∧ -(n : Int) < k
    omega
  | positive =>
    change -(k : Int) < (n : Int) ∧ (n : Int) < k
    omega

theorem compare_neg_neg (a b : Int) : compare (-a) (-b) = (compare a b).swap := by
  rw [Int.compare_swap]
  rcases Int.lt_trichotomy a b with h | rfl | h
  · rw [Int.compare_eq_gt.mpr h, Int.compare_eq_gt.mpr (by omega)]
  · rw [Int.compare_eq_eq.mpr rfl, Int.compare_eq_eq.mpr rfl]
  · rw [Int.compare_eq_lt.mpr h, Int.compare_eq_lt.mpr (by omega)]

theorem some_lt {a b : Int} (h : a < b) : some Ordering.lt = some (compare a b) :=
  congrArg some (Int.compare_eq_lt.mpr h).symm

theorem some_gt {a b : Int} (h : b < a) : some Ordering.gt = some (compare a b) :=
  congrArg some (Int.compare_eq_gt.mpr h).symm

/-- Floats that are taken apart are compared by their places. -/
theorem compare_eq_place {u v : UnpackedFloat} (hu : IsCanonical u) (hv : IsCanonical v)
    (hu' : u ≠ .notANumber) (hv' : v ≠ .notANumber) :
    u.compare v = some (compare (place u) (place v)) := by
  cases u with
  | notANumber => exact absurd rfl hu'
  | infinity s =>
    cases v with
    | notANumber => exact absurd rfl hv'
    | infinity s' => cases s <;> cases s' <;> rfl
    | zero s' => cases s <;> cases s' <;> rfl
    | finite s' m e h =>
      obtain ⟨hlow, hhigh⟩ := apply_within s' (size_finite hv).2
      cases s with
      | negative => exact some_lt hlow
      | positive => exact some_gt hhigh
  | zero s =>
    cases v with
    | notANumber => exact absurd rfl hv'
    | infinity s' => cases s <;> cases s' <;> rfl
    | zero s' => cases s <;> cases s' <;> rfl
    | finite s' m e h =>
      cases s' with
      | negative => cases s <;> exact some_gt (place_negative hv)
      | positive => cases s <;> exact some_lt (place_positive hv)
  | finite s m e h =>
    cases v with
    | notANumber => exact absurd rfl hv'
    | infinity s' =>
      obtain ⟨hlow, hhigh⟩ := apply_within s (size_finite hu).2
      cases s' with
      | negative => cases s <;> exact some_gt hlow
      | positive => cases s <;> exact some_lt hhigh
    | zero s' =>
      cases s with
      | negative => cases s' <;> exact some_lt (place_negative hu)
      | positive => cases s' <;> exact some_gt (place_positive hu)
    | finite s' m' e' h' =>
      have hsizes := compare_finite hu hv
      cases s with
      | negative =>
        cases s' with
        | negative =>
          change some ((compare e e').then (compare m m')).swap = some (compare (-_) (-_))
          rw [hsizes, compare_neg_neg]
        | positive => exact some_lt (Int.lt_trans (place_negative hu) (place_positive hv))
      | positive =>
        cases s' with
        | negative => exact some_gt (Int.lt_trans (place_negative hv) (place_positive hu))
        | positive => exact congrArg some hsizes

/-! ## Comparing floats -/

/-- What the model of floats makes of a comparison, by the ordinals. -/
theorem compare_unpack {x y : Float} (hx : x.isNaN = false) (hy : y.isNaN = false) :
    x.toModel.unpack.compare y.toModel.unpack = some (compare (ordinal x) (ordinal y)) := by
  have hx' : IsCanonical x.toModel.unpack := (fields_unpack x.toBits.toBitVec).isCanonical
  have hy' : IsCanonical y.toModel.unpack := (fields_unpack y.toBits.toBitVec).isCanonical
  rw [compare_eq_place hx' hy' (ne_notANumber hx) (ne_notANumber hy), place_unpack hx,
    place_unpack hy]

theorem lt_iff {x y : Float} (hx : x.isNaN = false) (hy : y.isNaN = false) :
    x < y ↔ ordinal x < ordinal y := by
  rw [lt_iff_unpack, compare_unpack hx hy, Option.some.injEq, Int.compare_eq_lt]

theorem beq_iff {x y : Float} (hx : x.isNaN = false) (hy : y.isNaN = false) :
    (x == y) = true ↔ ordinal x = ordinal y := by
  rw [beq_iff_unpack, compare_unpack hx hy, Option.some.injEq, Int.compare_eq_eq]

/-- Floats that are not NaN are compared as their ordinals are. -/
theorem compareFloats?_eq {x y : Float} (hx : x.isNaN = false) (hy : y.isNaN = false) :
    Number.compareFloats? x y = some (compare (ordinal x) (ordinal y)) := by
  simp only [Number.compareFloats?, lt_iff hx hy, lt_iff hy hx, beq_iff hx hy]
  rcases Int.lt_trichotomy (ordinal x) (ordinal y) with h | h | h
  · rw [if_pos h, Int.compare_eq_lt.mpr h]
  · rw [if_neg (by omega), if_neg (by omega), if_pos h, Int.compare_eq_eq.mpr h]
  · rw [if_neg (by omega), if_pos h, Int.compare_eq_gt.mpr h]

theorem eq_notANumber {x : Float} (hx : x.isNaN = true) : x.toModel.unpack = .notANumber := by
  have hnan : x.isNaN = x.toModel.unpack.isNaN := rfl
  rw [hx] at hnan
  cases hu : x.toModel.unpack with
  | notANumber => rfl
  | _ => rw [hu] at hnan; cases hnan

theorem compare_notANumber (u : UnpackedFloat) :
    UnpackedFloat.notANumber.compare u = none ∧ u.compare .notANumber = none := by
  cases u <;> exact ⟨rfl, rfl⟩

/-- NaN is comparable with nothing. -/
theorem compareFloats?_of_isNaN {x y : Float} (h : x.isNaN = true ∨ y.isNaN = true) :
    Number.compareFloats? x y = none := by
  have hnone : x.toModel.unpack.compare y.toModel.unpack = none ∧
      y.toModel.unpack.compare x.toModel.unpack = none := by
    rcases h with h | h
    · rw [eq_notANumber h]
      exact compare_notANumber _
    · rw [eq_notANumber h]
      exact (compare_notANumber _).symm
  have hlt : ¬x < y := by
    rw [lt_iff_unpack, hnone.1]
    exact (Option.some_ne_none _).symm
  have hgt : ¬y < x := by
    rw [lt_iff_unpack, hnone.2]
    exact (Option.some_ne_none _).symm
  have heq : ¬(x == y) = true := by
    rw [beq_iff_unpack, hnone.1]
    exact (Option.some_ne_none _).symm
  rw [Number.compareFloats?, if_neg hlt, if_neg hgt, if_neg heq]

end DiceNotation.Floats
