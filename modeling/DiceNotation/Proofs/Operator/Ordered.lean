import DiceNotation.Proofs.Operator.Applications
import DiceNotation.Proofs.Roll.Ascending

/-!
# Operators on ordered values

A value is ordered if its rolls are in ascending order and only integers are behind them. Dice are
thrown in order, and every operator that makes a roll of a roll restores the order. Fractions come
in only through lists of faces, dice at their mean and the bounds of `f` and `c`.

* `RollM.Ensures`: what holds of all that a computation can come to, whatever is rolled.
* `Modifier.ensures_keep`: what `h` and `l` come to.
* `Operator.ensures_apply`: an operator makes ordered values of ordered ones.
-/

namespace DiceNotation

variable {ρ : Type}

/-! ## What a computation can come to -/

namespace RollM

variable {α β : Type} {P : α → Prop} {Q : β → Prop}

/-- Whether everything that a computation can come to is as it should be. -/
def Ensures (x : RollM ρ α) (P : α → Prop) : Prop :=
  ∀ ctx a, (x.run.run ctx).1 = .ok a → P a

theorem ensures_true (x : RollM ρ α) : Ensures x fun _ => True := fun _ _ _ => trivial

theorem ensures_pure {a : α} (h : P a) : Ensures (pure a : RollM ρ α) P := by
  rintro ctx _ ⟨⟩
  exact h

theorem ensures_liftM {x : Except RollError α} (h : ∀ a, x = .ok a → P a) :
    Ensures (liftM x : RollM ρ α) P := by
  intro ctx a ha
  rw [run_liftM] at ha
  exact h a ha

theorem Ensures.bind {x : RollM ρ β} {k : β → RollM ρ α} (hx : Ensures x Q)
    (hk : ∀ b, Q b → Ensures (k b) P) : Ensures (x >>= k) P := by
  intro ctx a ha
  have hb := hx ctx
  rw [run_bind] at ha
  generalize x.run.run ctx = run at hb ha
  rcases run with ⟨c | b, mid⟩
  · cases ha
  · exact hk b (hb b rfl) mid a ha

end RollM

/-! ## Ordered values -/

namespace Value

/-- Whether rolls are in ascending order and their dice show integers, and lists of faces have only
integers. Numbers may be fractions. -/
inductive IsOrdered : Value → Prop where
  | number (x : Number) : IsOrdered (.number x)
  | roll {r : Roll} : r.IsAscending → r.die.isInteger = true → IsOrdered (.roll r)
  | faces {f : Faces} : f.isInteger = true → IsOrdered (.faces f)

end Value

namespace Operator

variable {op : Operator} {side : Side} {value : Option Value}

/-! ### Operands -/

theorem isInteger_of_dieOperand (h : ∀ v, value = some v → v.IsOrdered) {die : Die}
    (hdie : op.dieOperand side value = .ok die) : die.isInteger = true := by
  rcases dieOperand_cases op side value hdie with ⟨s, rfl⟩ | ⟨f, hf, rfl⟩
  · rfl
  · cases h _ hf with
    | faces hinteger => exact hinteger

/-- A modifier sees the number on its right as the sum of what is there. -/
theorem collapse_of_numberOperand {m : Modifier} {x : Number}
    (h : (Operator.binary (.modifier m)).numberOperand .right value = .ok x) :
    ∃ w, value = some w ∧ w.collapse = x := by
  cases value with
  | none => cases h
  | some w => cases w <;> cases h <;> exact ⟨_, rfl, rfl⟩

theorem collapse_of_countOperand {m : Modifier} {n : Nat}
    (h : (Operator.binary (.modifier m)).countOperand .right value = .ok n) :
    ∃ w k, value = some w ∧ w.collapse = .int k ∧ 0 ≤ k.toInt ∧ n = k.toInt.toNat := by
  cases value with
  | none => cases h
  | some w =>
    have hoperand : (Operator.binary (.modifier m)).operand .right (some w) = .ok w.summed := rfl
    rw [countOperand, hoperand] at h
    cases hw : w.summed with
    | roll r => rw [hw] at h; cases h
    | faces f => rw [hw] at h; cases h
    | number x =>
      rw [hw] at h
      cases x with
      | float x => cases h
      | int k =>
        change (if k.toInt < 0 then _ else _) = _ at h
        split at h
        · cases h
        · cases h
          refine ⟨w, k, rfl, ?_, by omega, rfl⟩
          rw [← w.collapse_summed, hw]
          rfl

end Operator

/-! ## Applying operators -/

variable [Roller ρ]

namespace RollM

theorem ensures_rollDice {die : Die} (h : die.isInteger = true) (n : Nat) :
    Ensures (rollDice n die : RollM ρ Roll) fun r => r.IsAscending ∧ r.die = die := by
  intro ctx r hr
  obtain ⟨outcome, hrequest, hresult⟩ := requested_rollDice n die ctx
  rw [hresult] at hr
  cases outcome with
  | error c => cases hr
  | ok values =>
    cases hr
    exact ⟨Roll.isAscending_of (Roll.isInteger_requested h hrequest) die, rfl⟩

end RollM

open RollM

/-- Dice that show integers are thrown in order, unless they are thrown at their mean. -/
theorem DiceKind.ensures_roll {kind : DiceKind} (hkind : kind ≠ .average) {die : Die}
    (h : die.isInteger = true) (n : Nat) :
    Ensures (kind.roll n die : RollM ρ Roll) fun r => r.IsAscending ∧ r.die = die := by
  cases kind with
  | plain => exact ensures_rollDice h n
  | average => exact absurd rfl hkind
  | critical => exact ensures_rollDice h (2 * n)
  | maximum =>
    refine .bind (ensures_true _) fun _ _ => ensures_pure ⟨Roll.isAscending_of ?_ die, rfl⟩
    intro x hx
    rw [List.eq_of_mem_replicate hx]
    exact Die.isInteger_max h

namespace Roll

theorem Rerolls.die_eq {r after : Roll} {relation : Relation} {target : Number}
    {repetition : Repetition} {outcome : Except RollError Unit} {ctx last : Context ρ}
    (h : r.Rerolls relation target repetition ctx outcome after last) : after.die = r.die := by
  cases h <;> rfl

theorem ensures_rerolled {r : Roll} (hr : r.IsAscending) (hdie : r.die.isInteger = true)
    (relation : Relation) (target : Number) (repetition : Repetition) :
    Ensures (r.rerolled relation target repetition : RollM ρ Roll)
      fun after => after.IsAscending ∧ after.die = r.die := by
  intro ctx after hafter
  have hreroll := rerolls_reroll r relation target repetition ctx
  rw [run_rerolled] at hafter
  generalize (r.reroll relation target repetition).run ctx = run at hreroll hafter
  rcases run with ⟨⟨c | ⟨⟩, found⟩, last⟩
  · cases hafter
  · cases hafter
    exact ⟨hreroll.isAscending hr hdie rfl, hreroll.die_eq⟩

end Roll

namespace Modifier

variable {left right : Option Value}

omit [Roller ρ] in
theorem ensures_rollOperand (hleft : ∀ v, left = some v → v.IsOrdered) (m : Modifier) :
    Ensures (liftM ((Operator.binary (.modifier m)).rollOperand .left left) : RollM ρ Roll)
      fun r => r.IsAscending ∧ r.die.isInteger = true := by
  refine ensures_liftM fun r hr => ?_
  cases hleft _ (Operator.eq_of_rollOperand _ hr) with
  | roll hr hdie => exact ⟨hr, hdie⟩

/-- A modifier makes a roll in order of one in order, as long as its bound is an integer. -/
theorem ensures_apply {m : Modifier} (hleft : ∀ v, left = some v → v.IsOrdered)
    (hright : m = .floor ∨ m = .ceiling → ∀ v, right = some v → v.collapse.IsInteger) :
    Ensures (m.apply left right : RollM ρ Roll)
      fun r => r.IsAscending ∧ r.die.isInteger = true := by
  have hnumber : Ensures (liftM ((Operator.binary (.modifier m)).numberOperand .right right) :
      RollM ρ Number) fun x => m = .floor ∨ m = .ceiling → x.IsInteger := by
    refine ensures_liftM fun x hx hm => ?_
    obtain ⟨w, hw, rfl⟩ := Operator.collapse_of_numberOperand hx
    exact hright hm w hw
  cases m with
  | keepHigh =>
    exact .bind (ensures_true _) fun n _ => .bind (ensures_rollOperand hleft _) fun r hr =>
      ensures_pure ⟨hr.1.keepHigh n, hr.2⟩
  | keepLow =>
    exact .bind (ensures_true _) fun n _ => .bind (ensures_rollOperand hleft _) fun r hr =>
      ensures_pure ⟨hr.1.keepLow n, hr.2⟩
  | floor =>
    exact .bind hnumber fun x hx => .bind (ensures_rollOperand hleft _) fun r hr =>
      ensures_pure ⟨hr.1.clamp .lower (hx (.inl rfl)), hr.2⟩
  | ceiling =>
    exact .bind hnumber fun x hx => .bind (ensures_rollOperand hleft _) fun r hr =>
      ensures_pure ⟨hr.1.clamp .higher (hx (.inr rfl)), hr.2⟩
  | reroll relation repetition =>
    refine .bind (ensures_true _) fun x _ => .bind (ensures_rollOperand hleft _) fun r hr => ?_
    intro ctx after hafter
    obtain ⟨hascending, hdie⟩ := Roll.ensures_rerolled hr.1 hr.2 _ _ _ ctx after hafter
    exact ⟨hascending, hdie ▸ hr.2⟩
  | countAtLeast =>
    exact .bind (ensures_true _) fun x _ => .bind (ensures_rollOperand hleft _) fun r hr =>
      ensures_pure ⟨r.isAscending_count _, hr.2⟩
  | countAtMost =>
    exact .bind (ensures_true _) fun x _ => .bind (ensures_rollOperand hleft _) fun r hr =>
      ensures_pure ⟨r.isAscending_count _, hr.2⟩

/-- Whether a modifier is applied by keeping some values of a roll, as many as its count says. -/
def KeepsBy (m : Modifier) (keep : Roll → Nat → Roll) : Prop :=
  ∀ {ρ : Type} [Roller ρ] (left right : Option Value), (m.apply left right : RollM ρ Roll) = do
    let n ← (Operator.binary (.modifier m)).countOperand .right right
    return keep (← (Operator.binary (.modifier m)).rollOperand .left left) n

theorem keepsBy_keepHigh : keepHigh.KeepsBy Roll.keepHigh := fun _ _ => rfl

theorem keepsBy_keepLow : keepLow.KeepsBy Roll.keepLow := fun _ _ => rfl

/-- To keep values takes a roll on the left and an integer on the right that is not negative. -/
theorem ensures_keep {m : Modifier} {keep : Roll → Nat → Roll} (hm : m.KeepsBy keep) :
    Ensures (m.apply left right : RollM ρ Roll) fun after => ∃ r w n, left = some (.roll r) ∧
      right = some w ∧ w.collapse = .int n ∧ 0 ≤ n.toInt ∧ after = keep r n.toInt.toNat := by
  rw [hm left right]
  refine .bind (ensures_liftM fun n hn => Operator.collapse_of_countOperand hn) ?_
  rintro _ ⟨w, n, hw, hcount, hpos, rfl⟩
  refine .bind (ensures_liftM fun r hr => Operator.eq_of_rollOperand _ hr) fun r hr => ?_
  exact ensures_pure ⟨r, w, n, hr, hw, hcount, hpos, rfl⟩

end Modifier

namespace Operator

variable {left right : Option Value}

omit [Roller ρ] in
theorem ensures_ofArithmetic (result : Except ArithmeticError Number) :
    Ensures (liftM (ofArithmetic result) : RollM ρ Value) Value.IsOrdered := by
  refine ensures_liftM fun v hv => ?_
  cases result with
  | error c => cases hv
  | ok x =>
    cases hv
    exact .number x

/-- An operator makes ordered values of ordered ones, unless it throws dice at their mean or puts
a fraction in the place of values. -/
theorem ensures_apply {op : Operator} (hop : op ≠ .binary (.dice .average))
    (hleft : ∀ v, left = some v → v.IsOrdered) (hright : ∀ v, right = some v → v.IsOrdered)
    (hbound : ∀ m, op = .binary (.modifier m) → m = .floor ∨ m = .ceiling →
      ∀ v, right = some v → v.collapse.IsInteger) :
    Ensures (op.apply left right : RollM ρ Value) Value.IsOrdered := by
  cases op with
  | sign s => exact .bind (ensures_true _) fun x _ => ensures_pure (.number _)
  | factorial => exact .bind (ensures_true _) fun x _ => ensures_ofArithmetic _
  | binary b =>
    cases b with
    | dice kind =>
      have hkind : kind ≠ .average := by
        rintro rfl
        exact hop rfl
      refine .bind (ensures_true _) fun n _ => .bind (ensures_liftM fun die hdie =>
        isInteger_of_dieOperand hright hdie) fun die hdie => ?_
      refine .bind (kind.ensures_roll hkind hdie n) ?_
      rintro r ⟨hr, rfl⟩
      exact ensures_pure (.roll hr hdie)
    | modifier m =>
      exact .bind (Modifier.ensures_apply hleft (hbound m rfl)) fun r hr =>
        ensures_pure (.roll hr.1 hr.2)
    | arithmetic a =>
      exact .bind (ensures_true _) fun x _ => .bind (ensures_true _) fun y _ =>
        ensures_ofArithmetic _
    | test t =>
      exact .bind (ensures_true _) fun x _ => .bind (ensures_true _) fun y _ =>
        ensures_pure (.number _)

end Operator

end DiceNotation
