import DiceNotation.Number.Basic
import Mathlib.Algebra.Group.Nat.Defs

/-!
# Sums and differences of floats

Operations on floats take the bits apart, compute, and put the result together again. A float
that was only taken apart or negated comes through this unchanged.

* `Fields.unpack_pack`: what has the fields of a float is put together and taken apart again.
* `ofBits_toBits`: a float is taken apart into bits and put together again.
* `add_neg_eq_sub`: to add an opposite is to subtract.
* `add_zero_cases`: adding zero changes no float but negative zero.
* `compareFloats?_congr`: comparison sees nothing but the parts.
-/

namespace DiceNotation.Floats

open Float.Model hiding pack unpack
open Float.Model.UnpackedFloat

/-! ## The fields of a float -/

/-- A float with a given sign, exponent and mantissa. -/
inductive Fields (s : UnpackedFloat.Sign) (e : BitVec 11) (m : BitVec 52) :
    UnpackedFloat → Prop where
  | infinity : e = -1#11 → m = 0#52 → Fields s e m (.infinity s)
  | notANumber : e = -1#11 → m ≠ 0#52 → Fields s e m .notANumber
  | zero : e = 0#11 → m = 0#52 → Fields s e m (.zero s)
  | subnormal (h : 0 < m.toNat) : e = 0#11 → m ≠ 0#52 →
      Fields s e m (.finite s m.toNat (-1074) h)
  | normal (h : 0 < 2 ^ 52 + m.toNat) : e ≠ -1#11 → e ≠ 0#11 →
      Fields s e m (.finite s (2 ^ 52 + m.toNat) (e.toNat - 1075) h)

theorem toNat_pos_iff {m : BitVec 52} : 0 < m.toNat ↔ m ≠ 0#52 := by
  rw [Nat.pos_iff_ne_zero, ne_eq, ne_eq, ← BitVec.toNat_inj]
  rfl

theorem toNat_one_append (m : BitVec 52) : (1#1 ++ m).toNat = 2 ^ 52 + m.toNat := by
  have h := m.isLt
  rw [BitVec.toNat_append, ← Nat.shiftLeft_add_eq_or_of_lt h]
  rfl

section

variable (b : BitVec Format.binary64.numBits)

theorem unpackSign_eq : unpackSign b = b.extractLsb' 63 1 := rfl

theorem unpackExponent_eq : unpackExponent b = b.extractLsb' 52 11 := rfl

theorem unpackMantissa_eq : unpackMantissa b = b.extractLsb' 0 52 := rfl

theorem fields_unpack :
    Fields (.ofBitVec (unpackSign b)) (unpackExponent b) (unpackMantissa b)
      (unpack .binary64 b) := by
  by_cases he : unpackExponent b = -1#11
  · by_cases hm : unpackMantissa b = 0#52
    · have hunpack : unpack .binary64 b = .infinity (.ofBitVec (unpackSign b)) :=
        (if_pos he).trans (if_pos hm)
      rw [hunpack]
      exact .infinity he hm
    · have hunpack : unpack .binary64 b = .notANumber := (if_pos he).trans (if_neg hm)
      rw [hunpack]
      exact .notANumber he hm
  by_cases he' : unpackExponent b = 0#11
  · by_cases hm : unpackMantissa b = 0#52
    · have hunpack : unpack .binary64 b = .zero (.ofBitVec (unpackSign b)) :=
        (if_neg he).trans ((if_pos he').trans (dif_pos hm))
      rw [hunpack]
      exact .zero he' hm
    · have hunpack : unpack .binary64 b = .finite (.ofBitVec (unpackSign b))
          (unpackMantissa b).toNat ((unpackExponent b).toNat - 1075 + 1) (toNat_pos_iff.mpr hm) :=
        (if_neg he).trans ((if_pos he').trans (dif_neg hm))
      have hexponent : ((unpackExponent b).toNat : Int) - 1075 + 1 = -1074 := by
        rw [he']
        rfl
      rw [hunpack, hexponent]
      exact .subnormal _ he' hm
  · have hnormal {n : Nat} (hpos : 0 < n) (hn : n = 2 ^ 52 + (unpackMantissa b).toNat) :
        Fields (.ofBitVec (unpackSign b)) (unpackExponent b) (unpackMantissa b)
          (.finite (.ofBitVec (unpackSign b)) n ((unpackExponent b).toNat - 1075) hpos) := by
      subst hn
      exact .normal hpos he he'
    have hmantissa := toNat_one_append (unpackMantissa b)
    have hpos : 0 < (1#1 ++ unpackMantissa b).toNat := by omega
    have hunpack : unpack .binary64 b = .finite (.ofBitVec (unpackSign b))
        (1#1 ++ unpackMantissa b).toNat ((unpackExponent b).toNat - 1075) hpos :=
      (if_neg he).trans (if_neg he')
    rw [hunpack]
    exact hnormal hpos hmantissa

end

/-! ## Putting a float together -/

theorem log2_lt (m : BitVec 52) : m.toNat.log2 + 1 ≠ 53 := by
  intro h
  by_cases hm : m.toNat = 0
  · rw [hm] at h
    cases h
  · have hle : 2 ^ 52 ≤ m.toNat := (Nat.le_log2 hm).mp (by omega)
    have hlt := m.isLt
    omega

theorem log2_normal (m : BitVec 52) : (2 ^ 52 + m.toNat).log2 = 52 := by
  have hlt := m.isLt
  have hlo : 52 ≤ (2 ^ 52 + m.toNat).log2 := (Nat.le_log2 (by omega)).mpr (by omega)
  have hhi : (2 ^ 52 + m.toNat).log2 < 53 := (Nat.log2_lt (by omega)).mpr (by omega)
  omega

theorem pack_finite (s : UnpackedFloat.Sign) (m : Nat) (e : Int) (h : 0 < m) :
    pack .binary64 (.finite s m e h) =
      if 2 ^ 11 ≤ (e + 1023 + 52).toNat + 1 then packedInfinity .binary64 s
      else if m.log2 + 1 = 53 then
        packComponents .binary64 s (BitVec.ofNat 11 (e + 1023 + 52).toNat) (BitVec.ofNat 52 m)
      else packComponents .binary64 s 0#11 (BitVec.ofNat 52 m) := rfl

theorem Fields.pack_eq {s : UnpackedFloat.Sign} {e : BitVec 11} {m : BitVec 52} {u : UnpackedFloat}
    (h : Fields s e m u) (hu : u ≠ .notANumber) :
    pack .binary64 u = packComponents .binary64 s e m := by
  cases h with
  | infinity he hm =>
    rw [he, hm]
    rfl
  | notANumber he hm => exact absurd rfl hu
  | zero he hm =>
    rw [he, hm]
    rfl
  | subnormal h he hm =>
    rw [pack_finite, if_neg (by decide), if_neg (log2_lt m), BitVec.ofNat_toNat,
      BitVec.setWidth_eq, he]
  | normal h he he' =>
    have hbits : (2 ^ 52 + m.toNat).log2 + 1 = 53 := by rw [log2_normal]
    have hexponent : ((e.toNat : Int) - 1075 + 1023 + 52).toNat = e.toNat := by omega
    have hfinite : ¬2 ^ 11 ≤ e.toNat + 1 := by
      have hlt := e.isLt
      have hne : e.toNat ≠ 2047 := fun hmax => he (BitVec.eq_of_toNat_eq hmax)
      omega
    have hmantissa : BitVec.ofNat 52 (2 ^ 52 + m.toNat) = m := by
      apply BitVec.eq_of_toNat_eq
      rw [BitVec.toNat_ofNat, Nat.add_mod_left, Nat.mod_eq_of_lt m.isLt]
    rw [pack_finite, hexponent, if_neg hfinite, if_pos hbits, BitVec.ofNat_toNat,
      BitVec.setWidth_eq, hmantissa]

theorem Fields.unique {s : UnpackedFloat.Sign} {e : BitVec 11} {m : BitVec 52}
    {u u' : UnpackedFloat} (h : Fields s e m u) (h' : Fields s e m u') : u = u' := by
  cases h <;> cases h' <;> subst_vars <;> first | rfl | contradiction

theorem Fields.neg {s : UnpackedFloat.Sign} {e : BitVec 11} {m : BitVec 52} {u : UnpackedFloat}
    (h : Fields s e m u) : Fields (-s) e m u.neg := by
  cases h with
  | infinity he hm => exact .infinity he hm
  | notANumber he hm => exact .notANumber he hm
  | zero he hm => exact .zero he hm
  | subnormal hm he hm' => exact .subnormal hm he hm'
  | normal hm he he' => exact .normal hm he he'

theorem unpackSign_packComponents (s : UnpackedFloat.Sign) (e : BitVec 11) (m : BitVec 52) :
    unpackSign (packComponents .binary64 s e m) = s.toBitVec := by
  have hbit : ((s.toBitVec ++ e) ++ m).getLsbD 63 = s.toBitVec.getLsbD 0 := by
    rw [BitVec.getLsbD_append, if_neg (by decide), BitVec.getLsbD_append, if_neg (by decide)]
  ext i hi
  obtain rfl : i = 0 := by omega
  rw [unpackSign_eq, BitVec.getElem_extractLsb']
  exact hbit

theorem ofBitVec_toBitVec (s : UnpackedFloat.Sign) :
    UnpackedFloat.Sign.ofBitVec s.toBitVec = s := by
  cases s <;> rfl

theorem Fields.unpack_pack {s : UnpackedFloat.Sign} {e : BitVec 11} {m : BitVec 52}
    {u : UnpackedFloat} (h : Fields s e m u) : unpack .binary64 (pack .binary64 u) = u := by
  by_cases hu : u = .notANumber
  · rw [hu]
    rfl
  · rw [h.pack_eq hu]
    have hfields := fields_unpack (packComponents .binary64 s e m)
    rw [unpackExponent_packComponents, unpackMantissa_packComponents,
      unpackSign_packComponents, ofBitVec_toBitVec] at hfields
    exact hfields.unique h

/-! ## The bits of a float -/

theorem toBitVec_ofBitVec (b : BitVec 1) : (UnpackedFloat.Sign.ofBitVec b).toBitVec = b := by
  decide +revert

/-- The fields into which bits are taken apart make them up. -/
theorem packComponents_fields (b : BitVec Format.binary64.numBits) :
    packComponents .binary64 (UnpackedFloat.Sign.ofBitVec (unpackSign b)) (unpackExponent b)
      (unpackMantissa b) = b := by
  have htop : b.extractLsb' 63 1 ++ b.extractLsb' 52 11 = b.extractLsb' 52 12 :=
    BitVec.extractLsb'_append_extractLsb'_eq_extractLsb' rfl
  have hall : b.extractLsb' 52 12 ++ b.extractLsb' 0 52 = b.extractLsb' 0 64 :=
    BitVec.extractLsb'_append_extractLsb'_eq_extractLsb' rfl
  rw [packComponents, toBitVec_ofBitVec, unpackSign_eq, unpackExponent_eq, unpackMantissa_eq]
  calc
    b.extractLsb' 63 1 ++ b.extractLsb' 52 11 ++ b.extractLsb' 0 52
      = b.extractLsb' 0 64 := by rw [htop, hall]
    _ = b := BitVec.extractLsb'_eq_self

theorem pack_unpack {b : BitVec Format.binary64.numBits} (h : Format.binary64.Valid b) :
    pack .binary64 (unpack .binary64 b) = b := by
  have hfields := fields_unpack b
  by_cases hu : unpack .binary64 b = .notANumber
  · rw [hu] at hfields ⊢
    cases hfields with
    | notANumber he hm => exact (h.eq_packedNaN he hm).symm
  · rw [hfields.pack_eq hu, packComponents_fields]

theorem ofBits_toBits (x : Float) : Float.ofBits x.toBits = x := by
  obtain ⟨bits, hvalid⟩ := x
  refine congrArg Float.ofModel ((Float.Model.mk.injEq ..).mpr ?_)
  exact congrArg UInt64.ofBitVec (pack_unpack hvalid)

/-! ## Sums and differences -/

theorem neg_apply (s : UnpackedFloat.Sign) (n : Int) : (-s).apply n = -s.apply n := by
  cases s with
  | negative => exact (Int.neg_neg n).symm
  | positive => rfl

theorem add_neg_eq (x y : UnpackedFloat) : add .binary64 x y.neg = sub .binary64 x y := by
  cases x with
  | notANumber => cases y <;> rfl
  | infinity s => cases y <;> rfl
  | zero s =>
    cases y with
    | zero s' => cases s <;> cases s' <;> rfl
    | _ => rfl
  | finite s m e h =>
    cases y with
    | finite s' m' e' h' =>
      have hopposite := neg_apply s' (decreaseExponent m' e' (min e e')).1
      let total (n : Int) : UnpackedFloat :=
        normalize .binary64 (s.apply (decreaseExponent m e (min e e')).1 + n) (min e e') .positive
      exact congrArg total hopposite
    | _ => rfl

/-- To add an opposite is to subtract. -/
theorem add_neg_eq_sub (x y : Float) : x + -y = x - y := by
  have hneg : (-y).toModel.unpack = y.toModel.unpack.neg :=
    (fields_unpack _).neg.unpack_pack
  change Float.ofModel (Float.Model.pack (add .binary64 x.toModel.unpack (-y).toModel.unpack)) = _
  rw [hneg, add_neg_eq]
  rfl

/-! ## Adding zero -/

/-- Adding zero gives the float back, unless it is a zero itself. -/
theorem add_zero_cases (x : Float) :
    (x + floatOfInt 0).toModel.unpack = x.toModel.unpack ∨
      x.toModel.unpack = .zero .negative ∧ (x + floatOfInt 0).toModel.unpack = .zero .positive := by
  have hsum : (x + floatOfInt 0).toModel.unpack =
      unpack .binary64 (pack .binary64 (add .binary64 x.toModel.unpack (.zero .positive))) := rfl
  have hback : unpack .binary64 (pack .binary64 x.toModel.unpack) = x.toModel.unpack :=
    (fields_unpack _).unpack_pack
  rw [hsum]
  generalize x.toModel.unpack = u at hback ⊢
  cases u with
  | notANumber => exact .inl rfl
  | infinity s => exact .inl hback
  | zero s =>
    cases s with
    | negative => exact .inr ⟨rfl, rfl⟩
    | positive => exact .inl hback
  | finite s m e h => exact .inl hback

/-! ## Comparison -/

section

variable {x x' y y' : Float}

theorem lt_iff_unpack : x < y ↔ x.toModel.unpack.compare y.toModel.unpack = some .lt :=
  decide_eq_true_iff.trans beq_iff_eq

theorem beq_iff_unpack :
    (x == y) = true ↔ x.toModel.unpack.compare y.toModel.unpack = some .eq := by
  change (x.toModel.unpack.compare y.toModel.unpack == some .eq) = true ↔ _
  rw [beq_iff_eq]

/-- Comparison looks at floats as they are taken apart. -/
theorem compareFloats?_congr (hx : x.toModel.unpack = x'.toModel.unpack)
    (hy : y.toModel.unpack = y'.toModel.unpack) :
    Number.compareFloats? x y = Number.compareFloats? x' y' := by
  have hlt : x < y ↔ x' < y' := by
    rw [lt_iff_unpack, lt_iff_unpack, hx, hy]
  have hgt : y < x ↔ y' < x' := by
    rw [lt_iff_unpack, lt_iff_unpack, hx, hy]
  have heq : (x == y) = (x' == y') := by
    rw [Bool.eq_iff_iff, beq_iff_unpack, beq_iff_unpack, hx, hy]
  simp only [Number.compareFloats?, hlt, hgt, heq]

end

end DiceNotation.Floats
