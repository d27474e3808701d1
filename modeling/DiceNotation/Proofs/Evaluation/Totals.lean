import DiceNotation.Proofs.Evaluation.Cases
import DiceNotation.Proofs.Number.Totals
import DiceNotation.Proofs.Operator.Applications

/-!
# Exact totals

An evaluated tree shows all sums that its value was added up from: those of the values of a roll,
one after the other, and those of two operands. If none of them leaves the 64-bit range, the value
comes to an integer, which is the exact total.

* `Expr.SumsTo`: the exact total of an evaluated sum.
* `Evaluates.exists_int_of_sumsTo`: what the evaluation came to.
-/

namespace DiceNotation

/-- Whether the values of a roll add up to an integer, and no sum of the first of them leaves the
64-bit range. -/
def Roll.SumsTo (r : Roll) (z : Int) : Prop :=
  ∃ ns : List Int64, r.rolls = ns.map .int ∧ (ns.map Int64.toInt).sum = z ∧
    ∀ first, first <+: ns → FitsInt64 (first.map Int64.toInt).sum

theorem Roll.SumsTo.exists_int {r : Roll} {z : Int} (h : r.SumsTo z) :
    ∃ n, r.sum = .int n ∧ n.toInt = z := by
  obtain ⟨ns, hrolls, rfl, hfits⟩ := h
  obtain ⟨n, hn⟩ := hfits ns (List.prefix_refl ns)
  refine ⟨n, ?_, hn.symm⟩
  rw [Roll.sum, hrolls]
  exact (Number.sum_ints_eq_int_iff ns n).mpr ⟨hfits, hn⟩

/-- The sum of two values is that of the numbers that they come to. -/
theorem Operator.collapse_of_run_plus {ρ : Type} [Roller ρ] {v w u : Value} {ctx last : Context ρ}
    (h : ((Operator.binary (.arithmetic .plus)).apply (some v) (some w)).run.run ctx =
      (.ok u, last)) : u.collapse = v.collapse + w.collapse := by
  rw [run_arithmetic] at h
  cases v with
  | faces f => cases h
  | number x | roll r =>
    cases w with
    | faces f => cases h
    | number y | roll s =>
      cases h
      rfl

namespace Expr

/-- Whether the values that an evaluated tree remembers add up to an integer, and no sum on the
way leaves the 64-bit range. -/
inductive SumsTo : Expr → Int → Prop where
  | number (l : Literal) (n : Int64) : SumsTo (literal (some (.number (.int n))) l) n.toInt
  | roll {e : Expr} {r : Roll} {z : Int} : e.memory = some (.roll r) → r.SumsTo z → SumsTo e z
  | add {m : Option Value} {x y : Expr} {a b : Int} : SumsTo x a → SumsTo y b →
      FitsInt64 (a + b) → SumsTo (binary m (.arithmetic .plus) x y) (a + b)

variable {ρ : Type} [Roller ρ] {ctx last : Context ρ}

/-- A value whose sums all stay in the range comes to the exact total. -/
theorem Evaluates.exists_int_of_sumsTo {e e' : Expr} {v : Value} {z : Int} (hs : e'.SumsTo z)
    (he : e.clear = e) (h : Evaluates e ctx (.ok v) e' last) :
    ∃ n, v.collapse = .int n ∧ n.toInt = z := by
  induction hs generalizing e v ctx last with
  | number l n =>
    cases h.memory_eq
    exact ⟨n, rfl, rfl⟩
  | @roll e' r z hm hr =>
    cases hm.symm.trans h.memory_eq
    exact hr.exists_int
  | @add m x' y' a b hx hy hfit ihx ihy =>
    obtain ⟨k, hk⟩ := hfit
    cases h with
    | remembered hm =>
      rw [← he, memory_clear] at hm
      cases hm
    | binary hleft hright happly =>
      obtain ⟨-, -, hxclear, hyclear⟩ := binary.inj he
      obtain ⟨i, hi, rfl⟩ := ihx hxclear hleft
      obtain ⟨j, hj, rfl⟩ := ihy hyclear hright
      refine ⟨k, ?_, hk.symm⟩
      rw [Operator.collapse_of_run_plus happly, hi, hj]
      exact Number.int_add_int_eq_int_iff.mpr hk

end Expr

end DiceNotation
