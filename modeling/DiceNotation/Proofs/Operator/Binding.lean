import DiceNotation.Expr.Written

/-!
# How tightly operators bind

Parentheses are written by `Operator.encloses` and operators are reduced by
`Operator.reducesBefore`. The two were made for each other:

* `reducesBefore_of_not_encloses`: an operator that binds at least as tightly as a left operand
  written without parentheses is reduced before the operator on the right of that operand.
* `not_reducesBefore_of_not_encloses`: an operator takes the whole of a right operand that is
  written without parentheses.
* `not_reducesBefore_of_encloses`, `reducesBefore_of_encloses`: operands that are written in
  parentheses would be torn apart without them.
-/

namespace DiceNotation.Operator

/-! ## The table -/

theorem grouping_eq_right_iff {op : Operator} : op.grouping = .right ↔ op = power := by
  unfold grouping
  split
  · simp [*]
  · simp [*]

theorem grouping_eq_left_iff {op : Operator} : op.grouping = .left ↔ op ≠ power := by
  unfold grouping
  split
  · simp [*]
  · simp [*]

/-- No other operator binds as tightly as the power, so operators of one precedence group
alike. -/
theorem eq_power_of_precedence {op : Operator} (h : op.precedence = power.precedence) :
    op = power := by
  have all_eq : ∀ op ∈ all, op.precedence = power.precedence → op = power := by decide
  exact all_eq op (mem_all op) h

/-- The signs share their precedence with no other operator. -/
theorem precedence_ne_sign {op : Operator} (s : Sign) (h : op.arity ≠ .before) :
    op.precedence ≠ (sign s).precedence := by
  have all_ne : ∀ op ∈ all, op.arity ≠ .before → op.precedence ≠ 4 := by decide
  exact all_ne op (mem_all op) h

theorem reducesBefore_iff {op next : Operator} :
    op.reducesBefore next = true ↔
      next.precedence ≤ op.precedence ∧ (next = power → op.precedence ≠ next.precedence) := by
  unfold reducesBefore
  cases h : next.grouping with
  | left =>
    have hne := grouping_eq_left_iff.mp h
    simp [hne]
  | right =>
    have he := grouping_eq_right_iff.mp h
    simp only [decide_eq_true_eq]
    simp [he]
    omega

/-! ## Operands without parentheses -/

theorem precedence_le_of_not_encloses {op inner : Operator} {side : Side}
    (h : op.encloses side (some inner) = false) : op.precedence ≤ inner.precedence := by
  unfold encloses at h
  dsimp only at h
  split at h
  · next heq => exact Nat.le_of_eq heq.2.symm
  · simpa using h

theorem reducesBefore_of_not_encloses {op inner next : Operator}
    (h : next.encloses .left (some inner) = false) (hinner : inner.precedence ≤ op.precedence) :
    op.reducesBefore next = true := by
  have hle := precedence_le_of_not_encloses h
  refine reducesBefore_iff.mpr ⟨by omega, fun hp heq => ?_⟩
  subst hp
  -- a power on the left of a power is parenthesized
  have hpower : inner = power := eq_power_of_precedence (by omega)
  subst hpower
  exact absurd h (by decide)

theorem not_reducesBefore_of_not_encloses {op inner next : Operator}
    (h : op.encloses .right (some inner) = false) (hop : op.arity ≠ .after)
    (hinner : inner.precedence ≤ next.precedence) (hnext : next.arity ≠ .before) :
    op.reducesBefore next = false := by
  have hle := precedence_le_of_not_encloses h
  refine Bool.eq_false_iff.mpr fun hred => ?_
  obtain ⟨hge, hne⟩ := reducesBefore_iff.mp hred
  have heq : op.precedence = next.precedence := by omega
  cases op with
  | sign s => exact precedence_ne_sign s hnext heq.symm
  | factorial => exact hop rfl
  | binary b =>
    -- the operand has the precedence of `b`, so `b` groups from the right
    have hgroup : (binary b).grouping = .right := by
      unfold encloses at h
      dsimp only at h
      rw [if_pos ⟨rfl, by omega⟩] at h
      simpa using h
    have hb := grouping_eq_right_iff.mp hgroup
    exact hne (eq_power_of_precedence (by rw [← heq, hb])) heq

/-! ## Operands in parentheses -/

theorem not_reducesBefore_of_encloses {op inner : Operator}
    (h : op.encloses .left (some inner) = true) : inner.reducesBefore op = false := by
  refine Bool.eq_false_iff.mpr fun hred => ?_
  obtain ⟨hle, hne⟩ := reducesBefore_iff.mp hred
  unfold encloses at h
  dsimp only at h
  split at h
  · next heq =>
    cases hgroup : op.grouping with
    | left =>
      rw [hgroup] at h
      cases h
    | right => exact hne (grouping_eq_right_iff.mp hgroup) heq.2
  · have hlt := of_decide_eq_true h
    omega

theorem reducesBefore_of_encloses {op inner : Operator}
    (h : op.encloses .right (some inner) = true) : op.reducesBefore inner = true := by
  unfold encloses at h
  dsimp only at h
  split at h
  · next heq =>
    refine reducesBefore_iff.mpr ⟨Nat.le_of_eq heq.2, fun hinner _ => ?_⟩
    -- an operator with the precedence of the power is the power, which groups from the right
    have hpower : op = power := eq_power_of_precedence (by rw [← heq.2, hinner])
    rw [grouping_eq_right_iff.mpr hpower] at h
    cases h
  · have hlt := of_decide_eq_true h
    exact reducesBefore_iff.mpr ⟨Nat.le_of_lt hlt, fun _ => Nat.ne_of_gt hlt⟩

/-- Nothing binds tighter than the factorial. -/
theorem arity_ne_after_of_encloses {op inner : Operator} {side : Side}
    (h : op.encloses side (some inner) = true) : inner.arity ≠ .after := by
  have all_false : ∀ op ∈ all, ∀ side : Side, op.encloses side (some factorial) = false := by
    intro op hop side
    cases side
    · revert op
      decide
    · revert op
      decide
  intro hafter
  cases inner with
  | factorial => cases h.symm.trans (all_false op (mem_all op) side)
  | sign | binary => cases hafter

theorem arity_ne_before_of_sign_encloses {s : Sign} {inner : Operator} {side : Side}
    (h : (sign s).encloses side (some inner) = true) : inner.arity ≠ .before := by
  cases inner with
  | sign => cases h
  | factorial | binary => nofun

end DiceNotation.Operator
