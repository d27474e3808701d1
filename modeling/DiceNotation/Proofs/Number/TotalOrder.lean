import DiceNotation.Proofs.Number.Rounding

/-!
# The order in which rolls are sorted

Integers are compared exactly, and all else as floats. Both are total orders, but together they are
none: a float can stand beside two integers that round to it and are not equal. This takes integers
beyond 2^53, so that a list with one order is sorted.

* `compareTotal_intransitive_iff`: turned around, a comparison is reversed, and it is transitive
  but for such a float.
* `pairwise_sort`: no value of a sorted list comes after a later one.
-/

namespace DiceNotation

namespace Floats

theorem toNat_toBits (x : Float) :
    x.toBits.toNat = bif Binary64.isNegative x then Binary64.signBit + Binary64.magnitude x
      else Binary64.magnitude x := by
  have hlt : x.toBits.toNat < 2 ^ 64 := x.toBits.toNat_lt
  have hmagnitude : Binary64.magnitude x = x.toBits.toNat % 2 ^ 63 := rfl
  have hbit : Binary64.signBit = 2 ^ 63 := rfl
  cases hneg : Binary64.isNegative x with
  | false =>
    have hlow : ¬Binary64.signBit ≤ x.toBits.toNat := of_decide_eq_false hneg
    rw [cond_false]
    omega
  | true =>
    have hhigh : Binary64.signBit ≤ x.toBits.toNat := of_decide_eq_true hneg
    rw [cond_true]
    omega

/-- A float is known by its place in the total order. -/
theorem eq_of_totalOrderKey {x y : Float} (h : totalOrderKey x = totalOrderKey y) : x = y := by
  have hbits : x.toBits.toNat = y.toBits.toNat := by
    rw [toNat_toBits, toNat_toBits]
    unfold totalOrderKey at h
    cases hx : Binary64.isNegative x <;> cases hy : Binary64.isNegative y <;>
      simp only [hx, hy, if_true, Bool.false_eq_true, if_false] at h <;>
      simp only [cond_false, cond_true] <;> omega
  rcases x with ⟨⟨x, hxvalid⟩⟩
  rcases y with ⟨⟨y, hyvalid⟩⟩
  obtain rfl : x = y := UInt64.toNat_inj.mp hbits
  rfl

end Floats

namespace Number

variable {a b c : Number}

/-! ## Comparison -/

theorem compareTotal_swap (a b : Number) : compareTotal b a = (compareTotal a b).swap := by
  cases a <;> cases b <;> exact (Int.compare_swap _ _).symm

/-- What is not after something is not after it as a float either. -/
theorem totalOrderKey_le (h : compareTotal a b ≠ .gt) :
    totalOrderKey a.toFloat ≤ totalOrderKey b.toFloat := by
  cases a with
  | float x => cases b <;> exact Int.compare_ne_gt.mp h
  | int m =>
    cases b with
    | float y => exact Int.compare_ne_gt.mp h
    | int n => exact Floats.totalOrderKey_floatOfInt_mono (Int.compare_ne_gt.mp h)

/-! ## Transitivity -/

/-- Whether a float stands between two integers that both round to it, the greater one first. -/
inductive FallTogether : Number → Number → Number → Prop where
  | intro {m n : Int64} : n.toInt < m.toInt → floatOfInt m = floatOfInt n →
      FallTogether (.int m) (.float (floatOfInt n)) (.int n)

theorem FallTogether.intransitive (h : FallTogether a b c) :
    compareTotal a b ≠ .gt ∧ compareTotal b c ≠ .gt ∧ compareTotal a c = .gt := by
  cases h with
  | @intro m n hlt hfloat =>
    refine ⟨?_, ?_, Int.compare_eq_gt.mpr hlt⟩
    · change compare (totalOrderKey (floatOfInt m)) (totalOrderKey (floatOfInt n)) ≠ .gt
      rw [hfloat]
      exact Int.compare_ne_gt.mpr (Int.le_refl _)
    · exact Int.compare_ne_gt.mpr (Int.le_refl _)

theorem fallTogether_of_intransitive (hab : compareTotal a b ≠ .gt) (hbc : compareTotal b c ≠ .gt)
    (hac : compareTotal a c = .gt) : FallTogether a b c := by
  have hleft := totalOrderKey_le hab
  have hright := totalOrderKey_le hbc
  cases a with
  | float x =>
    have hgt : totalOrderKey c.toFloat < totalOrderKey x := by
      cases c <;> exact Int.compare_eq_gt.mp hac
    change totalOrderKey x ≤ totalOrderKey b.toFloat at hleft
    omega
  | int m =>
    cases c with
    | float y =>
      have hgt : totalOrderKey y < totalOrderKey (floatOfInt m) := Int.compare_eq_gt.mp hac
      simp only [toFloat] at hleft hright
      omega
    | int n =>
      have hlt : n.toInt < m.toInt := Int.compare_eq_gt.mp hac
      cases b with
      | int k =>
        have hmk := Int.compare_ne_gt.mp hab
        have hkn := Int.compare_ne_gt.mp hbc
        omega
      | float x =>
        -- rounding keeps the integers in order, so all three have the same place
        have hround := Floats.totalOrderKey_floatOfInt_mono (Int.le_of_lt hlt)
        simp only [toFloat] at hleft hright
        obtain rfl : x = floatOfInt n := Floats.eq_of_totalOrderKey (by omega)
        exact .intro hlt (Floats.eq_of_totalOrderKey (by omega))

/-- Turned around, a comparison is reversed. And what is not after something that is not after a
third number is not after that one either, unless it is the greater of two integers that round to
the float between them. -/
theorem compareTotal_intransitive_iff (a b c : Number) :
    compareTotal b a = (compareTotal a b).swap ∧
      ((compareTotal a b ≠ .gt ∧ compareTotal b c ≠ .gt ∧ compareTotal a c = .gt) ↔
        FallTogether a b c) :=
  ⟨compareTotal_swap a b,
    fun ⟨hab, hbc, hac⟩ => fallTogether_of_intransitive hab hbc hac, FallTogether.intransitive⟩

/-- `2 ^ 53 + 1` rounds to `2 ^ 53`, and neither is after the float `2 ^ 53`. -/
theorem compareTotal_intransitive_beyond :
    let a : Number := .int 9007199254740993
    let b : Number := .float 9007199254740992
    let c : Number := .int 9007199254740992
    compareTotal a b ≠ .gt ∧ compareTotal b c ≠ .gt ∧ compareTotal a c = .gt := by
  decide

/-! ## Sorting -/

/-- Integers that round to one float are not all exact. -/
theorem FallTogether.not_exact (h : FallTogether a b c) :
    ¬(a.isExactAsFloat = true ∧ c.isExactAsFloat = true) := by
  rintro ⟨ha, hc⟩
  cases h with
  | @intro m n hlt hfloat =>
    have hordinal := Floats.ordinal_floatOfInt_lt hlt (of_decide_eq_true hc) (of_decide_eq_true ha)
    rw [hfloat] at hordinal
    exact Int.lt_irrefl _ hordinal

/-- Within a list with one order, comparison is transitive. -/
theorem compareTotal_trans_of_haveOneOrder {xs : List Number} (h : haveOneOrder xs = true)
    (ha : a ∈ xs) (hb : b ∈ xs) (hc : c ∈ xs) (hab : compareTotal a b ≠ .gt)
    (hbc : compareTotal b c ≠ .gt) : compareTotal a c ≠ .gt := by
  intro hac
  have hfall := fallTogether_of_intransitive hab hbc hac
  rw [haveOneOrder, Bool.or_eq_true, List.all_eq_true, List.all_eq_true] at h
  rcases h with hints | hexact
  · cases hfall with
    | intro hlt hfloat => cases hints _ hb
  · exact hfall.not_exact ⟨hexact a ha, hexact c hc⟩

/-- Sorting by a relation that is transitive and total among the values of a list. -/
theorem pairwise_mergeSort_of_mem {α : Type} {xs : List α} {le : α → α → Bool}
    (htrans : ∀ a ∈ xs, ∀ b ∈ xs, ∀ c ∈ xs, le a b → le b c → le a c)
    (htotal : ∀ a ∈ xs, ∀ b ∈ xs, le a b || le b a) :
    (xs.mergeSort le).Pairwise fun a b => le a b := by
  -- within the type of the values of the list, the relation is transitive and total throughout
  let within (a b : { x // x ∈ xs }) : Bool := le a.val b.val
  have hsorted : (xs.attach.mergeSort within).Pairwise fun a b => within a b :=
    List.pairwise_mergeSort
      (fun (a b c : { x // x ∈ xs }) => htrans a.val a.property b.val b.property c.val c.property)
      (fun (a b : { x // x ∈ xs }) => htotal a.val a.property b.val b.property) xs.attach
  have hmap : (xs.attach.mergeSort within).map Subtype.val = xs.mergeSort le := by
    rw [List.map_mergeSort (r := within) (s := le) (f := Subtype.val) fun _ _ _ _ => rfl,
      List.attach_map_subtype_val]
  rw [← hmap]
  exact List.pairwise_map.mpr hsorted

theorem not_isBelow_iff : (!isBelow b a) = true ↔ compareTotal a b ≠ .gt := by
  rw [isBelow, compareTotal_swap a b]
  cases compareTotal a b <;> decide

/-- A list with one order is sorted: no value comes after a later one. -/
theorem pairwise_sort {xs : List Number} (h : haveOneOrder xs = true) :
    (sort xs).Pairwise fun a b => compareTotal a b ≠ .gt := by
  rw [sort, if_pos h]
  refine (pairwise_mergeSort_of_mem ?_ ?_).imp not_isBelow_iff.mp
  · intro a ha b hb c hc hab hbc
    exact not_isBelow_iff.mpr (compareTotal_trans_of_haveOneOrder h ha hb hc
      (not_isBelow_iff.mp hab) (not_isBelow_iff.mp hbc))
  · intro a ha b hb
    rw [isBelow, isBelow, compareTotal_swap a b]
    cases compareTotal a b <;> decide

end Number

end DiceNotation
