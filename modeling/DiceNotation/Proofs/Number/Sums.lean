import DiceNotation.Formula
import DiceNotation.Proofs.Number.Floats

/-!
# Sums with an integer

A modifier is added to a total, or it is written after an expression, where a negative one is
subtracted. Both are the same sum, in the integers and beyond.

* `Number.agrees_add_zero`: adding the integer zero makes no difference that a comparison shows.
* `Number.sub_neg_eq_add`: a negative integer is added by subtracting its opposite.
* `Formula.calculate_modifierParts`: a modifier as it is written has the effect of adding it.
-/

namespace DiceNotation

namespace Number

/-- Equal as numbers, or both NaN. -/
def Agrees (a b : Number) : Prop := (a == b) = true ∨ (a == a) = false ∧ (b == b) = false

theorem agrees_refl (a : Number) : a.Agrees a := by
  cases h : a == a with
  | true => exact .inl h
  | false => exact .inr ⟨h, h⟩

theorem beq_float {x y : Float} :
    ((.float x : Number) == .float y) = (compareFloats? x y == some .eq) := rfl

theorem agrees_float_of_unpack {x y : Float} (h : x.toModel.unpack = y.toModel.unpack) :
    Agrees (.float x) (.float y) := by
  have hxy : compareFloats? x y = compareFloats? y y := Floats.compareFloats?_congr h rfl
  have hxx : compareFloats? x x = compareFloats? y y := Floats.compareFloats?_congr h h
  unfold Agrees
  rw [beq_float, beq_float, beq_float, hxy, hxx]
  exact agrees_refl (.float y)

/-- The two zeros are equal. -/
theorem agrees_float_of_zeros {x y : Float} (hx : x.toModel.unpack = .zero .positive)
    (hy : y.toModel.unpack = .zero .negative) : Agrees (.float x) (.float y) := by
  have hzeros : compareFloats? x y = compareFloats? (floatOfInt 0) (-floatOfInt 0) :=
    Floats.compareFloats?_congr hx hy
  left
  rw [beq_float, hzeros]
  rfl

/-! ## Sums of integers -/

theorem exactly?_toInt (n : Int64) : exactly? n.toInt = some (.int n) := by
  rw [exactly?, int64?_eq_some_iff.mpr rfl]
  rfl

theorem int_add_zero (n : Int64) : (.int n + .int 0 : Number) = .int n := by
  change (exactly? (n.toInt + 0)).getD _ = _
  rw [Int.add_zero, exactly?_toInt]
  rfl

/-- Adding the integer zero makes no difference to a comparison. -/
theorem agrees_add_zero (a : Number) : (a + .int 0).Agrees a := by
  cases a with
  | int n =>
    rw [int_add_zero]
    exact agrees_refl _
  | float x =>
    change Agrees (.float (x + floatOfInt 0)) (.float x)
    rcases Floats.add_zero_cases x with h | ⟨hx, hsum⟩
    · exact agrees_float_of_unpack h
    · exact agrees_float_of_zeros hsum hx

/-! ## Subtracting an opposite -/

theorem toInt_neg {m : Int64} (h : m ≠ Int64.minValue) : (-m).toInt = -m.toInt :=
  BitVec.toInt_neg_of_ne_intMin fun hmin => h (Int64.toBitVec_inj.mp hmin)

theorem floatOfInt_of_neg {m : Int64} (h : m < 0) (hm : m ≠ Int64.minValue) :
    floatOfInt m = -floatOfInt (-m) := by
  have hpos : ¬-m < 0 := by
    have hlt : m.toInt < 0 := Int64.lt_iff_toInt_lt.mp h
    rw [Int64.lt_iff_toInt_lt, toInt_neg hm]
    change ¬-m.toInt < 0
    omega
  rw [floatOfInt, if_pos h, floatOfInt, if_neg hpos]

/-- A negative integer is added by subtracting its opposite. -/
theorem sub_neg_eq_add {m : Int64} (h : m < 0) (hm : m ≠ Int64.minValue) (a : Number) :
    a - .int (-m) = a + .int m := by
  cases a with
  | int n =>
    change (exactly? (n.toInt - (-m).toInt)).getD (.float (floatOfInt n - floatOfInt (-m))) =
      (exactly? (n.toInt + m.toInt)).getD (.float (floatOfInt n + floatOfInt m))
    rw [toInt_neg hm, Int.sub_neg, floatOfInt_of_neg h hm, Floats.add_neg_eq_sub]
  | float x =>
    change Number.float (x - floatOfInt (-m)) = .float (x + floatOfInt m)
    rw [floatOfInt_of_neg h hm, Floats.add_neg_eq_sub]

end Number

/-- A modifier that is written after a number is added to it. -/
theorem Formula.calculate_modifierParts (m : Int64) (a : Number) :
    (modifierParts m).1.calculate a (.int (modifierParts m).2) = .ok (a + .int m) := by
  unfold modifierParts
  split
  · next h => exact congrArg Except.ok (Number.sub_neg_eq_add h.1 h.2 a)
  · rfl

end DiceNotation
