import DiceNotation.Number.Arithmetic
import Mathlib.Algebra.Ring.Int.Defs

/-!
# Totals that stay integers

A sum of integers that leaves the 64-bit range is a float, and so is every sum with it. So a total
is an integer exactly if no sum on the way to it leaves the range, and it is exact then.

* `Number.add_eq_int_iff`, `Number.sum_ints_eq_int_iff`: when sums are integers, and which.
* `Number.foldl_eq_int_iff`: when a running total is an integer in the end.
* `Number.Below.add`, `Number.below_sum_replicate`: sums of smaller integers are smaller.
-/

namespace DiceNotation

/-- Whether an integer is within the 64-bit range. -/
def FitsInt64 (z : Int) : Prop := ∃ n : Int64, z = n.toInt

namespace Number

theorem exactly?_eq_some_iff {z : Int} {n : Int64} : exactly? z = some (.int n) ↔ z = n.toInt := by
  rw [exactly?, Option.map_eq_some_iff]
  simp only [int.injEq, exists_eq_right, int64?_eq_some_iff]

/-- A result on two integers is an integer exactly if it is within the range. -/
theorem combine_int_eq_int_iff (exact : Int → Int → Int) (onFloats : Float → Float → Float)
    {k m n : Int64} :
    combine exact onFloats (.int k) (.int m) = .int n ↔ exact k.toInt m.toInt = n.toInt := by
  rw [combine, ← exactly?_eq_some_iff]
  cases exactly? (exact k.toInt m.toInt) with
  | none => simp only [Option.getD_none, reduceCtorEq]
  | some x => rw [Option.getD_some, Option.some.injEq]

theorem int_add_int_eq_int_iff {k m n : Int64} :
    (.int k + .int m : Number) = .int n ↔ k.toInt + m.toInt = n.toInt :=
  combine_int_eq_int_iff _ _

theorem int_sub_int_eq_int_iff {k m n : Int64} :
    (.int k - .int m : Number) = .int n ↔ k.toInt - m.toInt = n.toInt :=
  combine_int_eq_int_iff _ _

/-- A sum is an integer exactly if both operands are and the sum is within the range. -/
theorem add_eq_int_iff {x y : Number} {n : Int64} :
    x + y = .int n ↔ ∃ k m, x = .int k ∧ y = .int m ∧ k.toInt + m.toInt = n.toInt := by
  constructor
  · intro h
    cases x with
    | float x => cases h
    | int k =>
      cases y with
      | float y => cases h
      | int m => exact ⟨k, m, rfl, rfl, int_add_int_eq_int_iff.mp h⟩
  · rintro ⟨k, m, rfl, rfl, h⟩
    exact int_add_int_eq_int_iff.mpr h

theorem float_add (x : Float) (y : Number) : ∃ z, (.float x + y : Number) = .float z := by
  cases y <;> exact ⟨_, rfl⟩

/-! ### Running totals -/

section Steps

variable {β : Type} {step : Number → β → Number}
  (hfloat : ∀ x b, ∃ z, step (.float x) b = .float z)

include hfloat

theorem foldl_float_ne_int (bs : List β) (x : Float) (n : Int64) :
    bs.foldl step (.float x) ≠ .int n := by
  induction bs generalizing x with
  | nil => nofun
  | cons b bs ih =>
    obtain ⟨z, hz⟩ := hfloat x b
    rw [List.foldl_cons, hz]
    exact ih z

/-- A running total to which integers are added ends as an integer exactly if it is never out of the
range, since a float stays one. -/
theorem foldl_eq_int_iff {effect : β → Int}
    (hint : ∀ (k : Int64) b (n : Int64),
      step (.int k) b = .int n ↔ k.toInt + effect b = n.toInt)
    (bs : List β) (a n : Int64) :
    bs.foldl step (.int a) = .int n ↔
      (∀ first, first <+: bs → FitsInt64 (a.toInt + (first.map effect).sum)) ∧
        a.toInt + (bs.map effect).sum = n.toInt := by
  induction bs generalizing a with
  | nil =>
    simp only [List.map_nil, List.foldl_nil, int.injEq, List.prefix_nil, forall_eq, List.sum_nil,
      Int.add_zero, Int64.toInt_inj]
    exact ⟨fun h => ⟨⟨a, rfl⟩, h⟩, fun h => h.2⟩
  | cons b bs ih =>
    rw [List.foldl_cons]
    cases hstep : step (.int a) b with
    | int k =>
      have hk : a.toInt + effect b = k.toInt := (hint a b k).mp hstep
      have hsum (first : List β) : k.toInt + (first.map effect).sum =
          a.toInt + ((b :: first).map effect).sum := by
        rw [List.map_cons, List.sum_cons, ← hk, Int.add_assoc]
      rw [ih, hsum]
      refine and_congr_left fun _ => ⟨fun h first hfirst => ?_, fun h first hfirst => ?_⟩
      · rcases List.prefix_cons_iff.mp hfirst with rfl | ⟨rest, rfl, hrest⟩
        · exact ⟨a, Int.add_zero _⟩
        · rw [← hsum]
          exact h rest hrest
      · rw [hsum]
        exact h (b :: first) (List.prefix_cons_inj b |>.mpr hfirst)
    | float z =>
      refine ⟨fun h => absurd h (foldl_float_ne_int hfloat _ _ _), fun h => ?_⟩
      obtain ⟨k, hk⟩ := h.1 [b] ⟨bs, rfl⟩
      rw [List.map_singleton, List.sum_singleton] at hk
      cases hstep.symm.trans ((hint a b k).mpr hk)

end Steps

theorem foldl_ints_eq_int_iff (ns : List Int64) (a n : Int64) :
    (ns.map int).foldl (· + ·) (.int a) = .int n ↔
      (∀ first, first <+: ns → FitsInt64 (a.toInt + (first.map Int64.toInt).sum)) ∧
        a.toInt + (ns.map Int64.toInt).sum = n.toInt := by
  rw [List.foldl_map]
  exact foldl_eq_int_iff (fun x m => float_add x (.int m))
    (fun _ _ _ => int_add_int_eq_int_iff) ns a n

/-- Integers add up to an integer exactly if no sum of the first of them leaves the range. -/
theorem sum_ints_eq_int_iff (ns : List Int64) (n : Int64) :
    sum (ns.map int) = .int n ↔
      (∀ first, first <+: ns → FitsInt64 (first.map Int64.toInt).sum) ∧
        (ns.map Int64.toInt).sum = n.toInt := by
  have hzero (z : Int) : (0 : Int64).toInt + z = z := by
    change 0 + z = z
    exact Int.zero_add z
  simp only [sum, zero, foldl_ints_eq_int_iff, hzero]

/-! ## Comparing totals -/

/-- Whether a total is at most another one, if both are integers. -/
def Below (x y : Number) : Prop := ∀ m n, x = .int m → y = .int n → m.toInt ≤ n.toInt

theorem below_int {m n : Int64} (h : m.toInt ≤ n.toInt) : Below (.int m) (.int n) := by
  rintro _ _ ⟨⟩ ⟨⟩
  exact h

/-- Whether a number is an integer up to `top`. -/
def IsIntUpTo (top : Int64) (x : Number) : Prop := ∃ n : Int64, x = .int n ∧ n.toInt ≤ top.toInt

theorem IsIntUpTo.below {top : Int64} {x : Number} (h : IsIntUpTo top x) : x.Below (.int top) := by
  obtain ⟨n, rfl, hn⟩ := h
  exact below_int hn

theorem Below.add {x y x' y' : Number} (h : x.Below y) (h' : x'.Below y') :
    (x + x').Below (y + y') := by
  intro m n hm hn
  obtain ⟨k, k', rfl, rfl, hm⟩ := add_eq_int_iff.mp hm
  obtain ⟨l, l', rfl, rfl, hn⟩ := add_eq_int_iff.mp hn
  have hleft := h k l rfl rfl
  have hright := h' k' l' rfl rfl
  omega

theorem below_foldl_replicate {xs : List Number} {top : Number} (h : ∀ x ∈ xs, x.Below top)
    {a b : Number} (hab : a.Below b) :
    (xs.foldl (· + ·) a).Below ((List.replicate xs.length top).foldl (· + ·) b) := by
  induction xs generalizing a b with
  | nil => exact hab
  | cons x xs ih =>
    obtain ⟨hx, hxs⟩ := List.forall_mem_cons.mp h
    rw [List.length_cons, List.replicate_succ, List.foldl_cons, List.foldl_cons]
    exact ih hxs (hab.add hx)

/-- Numbers that are at most `top` add up to at most as many times `top`. -/
theorem below_sum_replicate {xs : List Number} {top : Number} (h : ∀ x ∈ xs, x.Below top) :
    (sum xs).Below (sum (List.replicate xs.length top)) :=
  below_foldl_replicate h (below_int (Int.le_refl _))

end Number

end DiceNotation
