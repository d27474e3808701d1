import DiceNotation.Application
import DiceNotation.Proofs.Rolling.Rerolls

/-!
# Applications case by case

Most operators only calculate with their operands. The operators that roll dice make one request,
or count dice that they do not roll, and those that reroll do so with the roll on their left.

* `DiceKind.throws_roll`, `Operator.applies_apply`: every application is one of these cases.
-/

namespace DiceNotation

/-! ## Operands -/

namespace Operator

variable (op : Operator) (side : Side) (value : Option Value)

theorem numberOperand_ne_tooManyRolls : op.numberOperand side value ≠ .error .tooManyRolls := by
  unfold numberOperand
  cases value with
  | none => nofun
  | some v =>
    rw [operand]
    generalize (if op.sums side then v.summed else v) = seen
    cases seen <;> nofun

theorem rollOperand_ne_tooManyRolls : op.rollOperand side value ≠ .error .tooManyRolls := by
  unfold rollOperand
  cases value with
  | none => nofun
  | some v =>
    rw [operand]
    generalize (if op.sums side then v.summed else v) = seen
    cases seen <;> nofun

theorem countOperand_ne_tooManyRolls : op.countOperand side value ≠ .error .tooManyRolls := by
  unfold countOperand
  cases value with
  | none => nofun
  | some v =>
    rw [operand]
    generalize (if op.sums side then v.summed else v) = seen
    rcases seen with ⟨n | x⟩ | r | f
    · change (if n.toInt < 0 then _ else _) ≠ _
      split <;> nofun
    all_goals nofun

theorem dieOperand_ne_tooManyRolls : op.dieOperand side value ≠ .error .tooManyRolls := by
  unfold dieOperand
  cases value with
  | none => nofun
  | some v =>
    rw [operand]
    generalize (if op.sums side then v.summed else v) = seen
    intro h
    rcases seen with ⟨n | x⟩ | r | f
    · simp only [bind, Except.bind] at h
      split at h <;> cases h
    all_goals cases h

/-- A list of faces is no number, even where a roll would be summed. -/
theorem numberOperand_faces (f : Faces) :
    op.numberOperand side (some (.faces f)) = .error (.wrongOperand op .number (.faces f)) := by
  unfold numberOperand operand
  cases op.sums side <;> rfl

theorem numberOperand_of_sums (h : op.sums side = true) {v : Value} (hv : ∀ f, v ≠ .faces f) :
    op.numberOperand side (some v) = .ok v.collapse := by
  unfold numberOperand operand
  rw [h]
  cases v with
  | number x => rfl
  | roll r => rfl
  | faces f => exact absurd rfl (hv f)

theorem countOperand_int {n : Int64} (h : 0 ≤ n.toInt) :
    op.countOperand side (some (.number (.int n))) = .ok n.toInt.toNat := by
  have hneg : ¬n.toInt < 0 := Int.not_lt.mpr h
  unfold countOperand operand
  cases op.sums side <;> exact if_neg hneg

theorem dieOperand_int {n : Int64} {s : Sides} (h : n.toInt = s.count) :
    op.dieOperand side (some (.number (.int n))) = .ok (.sides s) := by
  have hsides : Sides.ofInt? n.toInt = some s := Sides.ofInt?_eq_some_iff.mpr h
  have hread : op.operand side (some (.number (.int n))) = .ok (.number (.int n)) := by
    unfold operand
    cases op.sums side <;> rfl
  simp only [dieOperand, hread, bind, Except.bind, hsides]
  rfl

theorem dieOperand_faces (f : Faces) : op.dieOperand side (some (.faces f)) = .ok (.faces f) := by
  unfold dieOperand operand
  cases op.sums side <;> rfl

/-- A die is a number of sides, or it is the list of faces that was given for it. -/
theorem dieOperand_cases {die : Die} (h : op.dieOperand side value = .ok die) :
    (∃ s, die = .sides s) ∨ ∃ f, value = some (.faces f) ∧ die = .faces f := by
  cases value with
  | none => cases h
  | some v =>
    have hfaces : ∀ f, (if op.sums side then v.summed else v) = .faces f → v = .faces f := by
      cases op.sums side <;> cases v <;> simp [Value.summed]
    unfold dieOperand at h
    rw [operand] at h
    generalize (if op.sums side then v.summed else v) = seen at h hfaces
    rcases seen with ⟨n | x⟩ | r | f
    · simp only [bind, Except.bind] at h
      split at h
      · cases h
        exact .inl ⟨_, rfl⟩
      · cases h
    · cases h
    · cases h
    · cases h
      exact .inr ⟨f, congrArg some (hfaces f rfl), rfl⟩

/-- A modifier sees the roll on its left as it is. -/
theorem eq_of_rollOperand {m : Modifier} {r : Roll}
    (h : (Operator.binary (.modifier m)).rollOperand .left value = .ok r) :
    value = some (.roll r) := by
  cases value with
  | none => cases h
  | some v => cases v <;> cases h; rfl

end Operator

variable {ρ : Type} [Roller ρ]

/-! ## Throwing dice -/

namespace DiceKind

/-- Whether the dice are rolled. The other kinds only count them. -/
def isRolled : DiceKind → Bool
  | plain | critical => true
  | average | maximum => false

/-- How many dice are thrown in place of `n`. -/
def multiply (kind : DiceKind) (n : Nat) : Nat := if kind = critical then 2 * n else n

/-- How dice are thrown in one of the four ways. -/
inductive Throws (kind : DiceKind) (n : Nat) (die : Die) (ctx : Context ρ) :
    Except RollError Roll → Context ρ → Prop where
  | rolled {outcome : Except RollError (List Number)} {last : Context ρ} :
      kind.isRolled = true → Requested (.many (kind.multiply n)) die ctx outcome last →
      Throws kind n die ctx (outcome.map (Roll.of · die)) last
  | exhausted : kind.isRolled = false → (ctx.charge n).isExhausted = true →
      Throws kind n die ctx (.error .tooManyRolls) (ctx.charge n)
  | counted (face : Number) : kind.isRolled = false → (ctx.charge n).isExhausted = false →
      Throws kind n die ctx (.ok (Roll.of (List.replicate n face) die)) (ctx.charge n)

theorem throws_rollDice {kind : DiceKind} (h : kind.isRolled = true) (n : Nat) (die : Die)
    (ctx : Context ρ) :
    Throws kind n die ctx ((RollM.rollDice (kind.multiply n) die).run.run ctx).1
      ((RollM.rollDice (kind.multiply n) die).run.run ctx).2 := by
  obtain ⟨outcome, hrequest, hresult⟩ := RollM.requested_rollDice (kind.multiply n) die ctx
  rw [hresult]
  exact .rolled h hrequest

theorem throws_count {kind : DiceKind} (h : kind.isRolled = false) (n : Nat) (die : Die)
    (face : Number) (ctx : Context ρ) :
    Throws kind n die ctx
      ((RollM.count n >>= fun _ => pure (Roll.of (List.replicate n face) die) :
        RollM ρ Roll).run.run ctx).1
      ((RollM.count n >>= fun _ => pure (Roll.of (List.replicate n face) die) :
        RollM ρ Roll).run.run ctx).2 := by
  rw [RollM.run_bind, RollM.run_count]
  cases hcount : (ctx.charge n).isExhausted with
  | true => exact .exhausted h hcount
  | false => exact .counted face h hcount

/-- Dice are thrown in one of these ways. -/
theorem throws_roll (kind : DiceKind) (n : Nat) (die : Die) (ctx : Context ρ) :
    Throws kind n die ctx ((kind.roll n die).run.run ctx).1 ((kind.roll n die).run.run ctx).2 := by
  cases kind with
  | plain => exact throws_rollDice rfl n die ctx
  | critical => exact throws_rollDice rfl n die ctx
  | average => exact throws_count rfl n die die.mean ctx
  | maximum => exact throws_count rfl n die die.max ctx

end DiceKind

/-! ## Applying operators -/

namespace RollM

omit [Roller ρ] in
theorem run_liftM {α : Type} (x : Except RollError α) (ctx : Context ρ) :
    (liftM x : RollM ρ α).run.run ctx = (x, ctx) := by
  cases x <;> rfl

omit [Roller ρ] in
theorem run_liftState {α : Type} (x : StateM (Context ρ) α) (ctx : Context ρ) :
    (liftM x : RollM ρ α).run.run ctx = (.ok (x.run ctx).1, (x.run ctx).2) := rfl

end RollM

/-! ## Reworking rolls -/

namespace Roll

theorem length_keepHigh_le (r : Roll) (n : Nat) : (r.keepHigh n).length ≤ r.length := by
  rw [length, keepHigh, List.length_drop]
  exact Nat.sub_le _ _

theorem length_keepLow_le (r : Roll) (n : Nat) : (r.keepLow n).length ≤ r.length := by
  rw [length, keepLow, List.length_take]
  exact Nat.min_le_right _ _

theorem length_sorted (r : Roll) : r.sorted.length = r.length := Number.length_sort r.rolls

theorem length_clamp (r : Roll) (relation : Relation) (bound : Number) :
    (r.clamp relation bound).length = r.length := by
  rw [clamp, length_sorted]
  exact List.length_map _

theorem length_count (r : Roll) (success : Number → Bool) :
    (r.count success).length = r.length := by
  rw [count, length_sorted]
  exact List.length_map _

theorem run_rerolled (r : Roll) (relation : Relation) (target : Number)
    (repetition : Repetition) (ctx : Context ρ) :
    (r.rerolled relation target repetition).run.run ctx =
      (((r.reroll relation target repetition).run ctx).1.1.map
          fun _ => ((r.reroll relation target repetition).run ctx).1.2,
        ((r.reroll relation target repetition).run ctx).2) := by
  unfold rerolled
  simp only [RollM.run_bind, RollM.run_liftState]
  generalize (r.reroll relation target repetition).run ctx = run
  rcases run with ⟨⟨_ | _, after⟩, last⟩ <;> rfl

end Roll

namespace Modifier

/-- How a modifier is applied to the roll on its left. -/
inductive Applies (m : Modifier) (left : Option Value) (ctx : Context ρ) :
    Except RollError Roll → Context ρ → Prop where
  | refused {c : RollError} : c ≠ .tooManyRolls → Applies m left ctx (.error c) ctx
  | reworked {r after : Roll} : left = some (.roll r) → after.length ≤ r.length →
      Applies m left ctx (.ok after) ctx
  | rerolled {relation : Relation} {repetition : Repetition} {r after : Roll} {target : Number}
      {outcome : Except RollError Unit} {last : Context ρ} : m = .reroll relation repetition →
      left = some (.roll r) → r.Rerolls relation target repetition ctx outcome after last →
      Applies m left ctx (outcome.map fun _ => after) last

variable {m : Modifier} {left right : Option Value}

/-- A modifier that only reworks the roll, given the operand that says how much. -/
theorem applies_rework {α : Type} {amount : Except RollError α} {f : Roll → α → Roll}
    (h : amount ≠ .error .tooManyRolls) (hf : ∀ r a, (f r a).length ≤ r.length)
    {action : RollM ρ Roll}
    (haction : action = do
      let a ← amount
      return f (← (Operator.binary (.modifier m)).rollOperand .left left) a)
    (ctx : Context ρ) :
    Applies m left ctx (action.run.run ctx).1 (action.run.run ctx).2 := by
  subst haction
  simp only [RollM.run_bind, RollM.run_liftM]
  have hroll := Operator.rollOperand_ne_tooManyRolls (.binary (.modifier m)) .left left
  cases hamount : amount with
  | error c => exact .refused fun hc => h (by rw [hamount, hc])
  | ok a =>
    cases hleft : (Operator.binary (.modifier m)).rollOperand .left left with
    | error c => exact .refused fun hc => hroll (by rw [hleft, hc])
    | ok r => exact .reworked (Operator.eq_of_rollOperand _ hleft) (hf r a)

theorem applies_apply (m : Modifier) (left right : Option Value) (ctx : Context ρ) :
    Applies m left ctx ((m.apply left right).run.run ctx).1
      ((m.apply left right).run.run ctx).2 := by
  have hcount := Operator.countOperand_ne_tooManyRolls (.binary (.modifier m)) .right right
  have hnumber := Operator.numberOperand_ne_tooManyRolls (.binary (.modifier m)) .right right
  cases m with
  | keepHigh => exact applies_rework hcount Roll.length_keepHigh_le rfl ctx
  | keepLow => exact applies_rework hcount Roll.length_keepLow_le rfl ctx
  | floor =>
    exact applies_rework hnumber (fun r x => Nat.le_of_eq (r.length_clamp .lower x)) rfl ctx
  | ceiling =>
    exact applies_rework hnumber (fun r x => Nat.le_of_eq (r.length_clamp .higher x)) rfl ctx
  | countAtLeast =>
    exact applies_rework hnumber (fun r x => Nat.le_of_eq (r.length_count _)) rfl ctx
  | countAtMost =>
    exact applies_rework hnumber (fun r x => Nat.le_of_eq (r.length_count _)) rfl ctx
  | reroll relation repetition =>
    unfold apply
    simp only [RollM.run_bind, RollM.run_liftM]
    have hroll := Operator.rollOperand_ne_tooManyRolls
      (.binary (.modifier (.reroll relation repetition))) .left left
    cases htarget : (Operator.binary (.modifier (.reroll relation repetition))).numberOperand
        .right right with
    | error c => exact .refused fun hc => hnumber (by rw [htarget, hc])
    | ok target =>
      cases hleft : (Operator.binary (.modifier (.reroll relation repetition))).rollOperand
          .left left with
      | error c => exact .refused fun hc => hroll (by rw [hleft, hc])
      | ok r =>
        have hcase := Roll.rerolls_reroll r relation target repetition ctx
        simp only [Roll.run_rerolled]
        exact .rerolled rfl (Operator.eq_of_rollOperand _ hleft) hcase

end Modifier

namespace Operator

/-- An outcome that cost no dice. Whatever roll there is was on the left before. -/
def Calculated (op : Operator) (left : Option Value) : Except RollError Value → Prop
  | .error c => c ≠ .tooManyRolls
  | .ok v => op.isDice = false ∧
    ∀ after, v = .roll after → ∃ r, left = some (.roll r) ∧ after.length ≤ r.length

/-- How an operator is applied. -/
inductive Applies (op : Operator) (left : Option Value) (ctx : Context ρ) :
    Except RollError Value → Context ρ → Prop where
  | calculated {outcome : Except RollError Value} :
      op.Calculated left outcome → Applies op left ctx outcome ctx
  | thrown {kind : DiceKind} {n : Nat} {die : Die} {outcome : Except RollError Roll}
      {last : Context ρ} : op = .binary (.dice kind) → kind.Throws n die ctx outcome last →
      Applies op left ctx (outcome.map Value.roll) last
  | rerolled {relation : Relation} {repetition : Repetition} {r after : Roll} {target : Number}
      {outcome : Except RollError Unit} {last : Context ρ} :
      op = .binary (.modifier (.reroll relation repetition)) → left = some (.roll r) →
      r.Rerolls relation target repetition ctx outcome after last →
      Applies op left ctx (outcome.map fun _ => .roll after) last

/-- The outcome of arithmetic costs no dice. -/
theorem calculated_ofArithmetic {op : Operator} {left : Option Value} (h : op.isDice = false)
    (result : Except ArithmeticError Number) : op.Calculated left (ofArithmetic result) := by
  cases result with
  | error c => exact nofun
  | ok x => exact ⟨h, nofun⟩

theorem calculated_bind {op : Operator} {left : Option Value} {α : Type}
    {x : Except RollError α} {f : α → Except RollError Value} (hx : x ≠ .error .tooManyRolls)
    (hf : ∀ a, op.Calculated left (f a)) : op.Calculated left (x >>= f) := by
  cases x with
  | error c => exact fun hc => hx (congrArg Except.error hc)
  | ok a => exact hf a

/-! ### Operators that only calculate -/

variable {left right : Option Value}

theorem run_sign (s : Sign) (ctx : Context ρ) :
    ((Operator.sign s).apply left right).run.run ctx =
      ((Operator.sign s).numberOperand .right right >>= fun x =>
        .ok (.number (match s with | .minus => -x | .plus => x)), ctx) := by
  unfold apply
  simp only [RollM.run_bind, RollM.run_liftM]
  cases (Operator.sign s).numberOperand .right right <;> rfl

theorem run_factorial (ctx : Context ρ) :
    (Operator.factorial.apply left right).run.run ctx =
      (Operator.factorial.numberOperand .left left >>= fun x => ofArithmetic x.factorial,
        ctx) := by
  unfold apply
  simp only [RollM.run_bind, RollM.run_liftM]
  cases Operator.factorial.numberOperand .left left <;> rfl

theorem run_arithmetic (a : Arithmetic) (ctx : Context ρ) :
    ((Operator.binary (.arithmetic a)).apply left right).run.run ctx =
      ((Operator.binary (.arithmetic a)).numberOperand .left left >>= fun x =>
        (Operator.binary (.arithmetic a)).numberOperand .right right >>= fun y =>
          ofArithmetic (a.calculate x y), ctx) := by
  unfold apply
  simp only
  unfold BinaryOperator.apply
  simp only [RollM.run_bind, RollM.run_liftM]
  cases (Operator.binary (.arithmetic a)).numberOperand .left left with
  | error c => rfl
  | ok x => cases (Operator.binary (.arithmetic a)).numberOperand .right right <;> rfl

/-- Arithmetic sees nothing but the sums of its operands, if they are no lists of faces. -/
theorem run_arithmetic_of_ne_faces (a : Arithmetic) {v w : Value} (hv : ∀ f, v ≠ .faces f)
    (hw : ∀ f, w ≠ .faces f) (ctx : Context ρ) :
    ((Operator.binary (.arithmetic a)).apply (some v) (some w)).run.run ctx =
      (ofArithmetic (a.calculate v.collapse w.collapse), ctx) := by
  rw [run_arithmetic, numberOperand_of_sums _ _ rfl hv, numberOperand_of_sums _ _ rfl hw]
  rfl

/-- The dice operators throw dice once their operands are accepted. -/
theorem run_dice {kind : DiceKind} {n : Nat} {die : Die}
    (hn : (Operator.binary (.dice kind)).countOperand .left left = .ok n)
    (hdie : (Operator.binary (.dice kind)).dieOperand .right right = .ok die) (ctx : Context ρ) :
    ((Operator.binary (.dice kind)).apply left right).run.run ctx =
      (((kind.roll n die).run.run ctx).1.map .roll, ((kind.roll n die).run.run ctx).2) := by
  unfold apply
  simp only
  unfold BinaryOperator.apply
  simp only [RollM.run_bind, RollM.run_liftM, hn, hdie]
  generalize (kind.roll n die).run.run ctx = run
  rcases run with ⟨c | r, last⟩ <;> rfl

theorem run_test (t : Test) (ctx : Context ρ) :
    ((Operator.binary (.test t)).apply left right).run.run ctx =
      ((Operator.binary (.test t)).numberOperand .left left >>= fun x =>
        (Operator.binary (.test t)).numberOperand .right right >>= fun y =>
          .ok (.number (Number.ofBool (t.decide x y))), ctx) := by
  unfold apply
  simp only
  unfold BinaryOperator.apply
  simp only [RollM.run_bind, RollM.run_liftM]
  cases (Operator.binary (.test t)).numberOperand .left left with
  | error c => rfl
  | ok x => cases (Operator.binary (.test t)).numberOperand .right right <;> rfl

/-! ### Every operator -/

theorem applies_sign (s : Sign) (ctx : Context ρ) :
    Applies (.sign s) left ctx (((Operator.sign s).apply left right).run.run ctx).1
      (((Operator.sign s).apply left right).run.run ctx).2 := by
  rw [run_sign]
  exact .calculated (calculated_bind (numberOperand_ne_tooManyRolls _ _ _) fun _ => ⟨rfl, nofun⟩)

theorem applies_factorial (ctx : Context ρ) :
    Applies .factorial left ctx ((Operator.factorial.apply left right).run.run ctx).1
      ((Operator.factorial.apply left right).run.run ctx).2 := by
  rw [run_factorial]
  exact .calculated (calculated_bind (numberOperand_ne_tooManyRolls _ _ _) fun _ =>
    calculated_ofArithmetic rfl _)

theorem applies_dice (kind : DiceKind) (ctx : Context ρ) :
    Applies (.binary (.dice kind)) left ctx
      (((Operator.binary (.dice kind)).apply left right).run.run ctx).1
      (((Operator.binary (.dice kind)).apply left right).run.run ctx).2 := by
  unfold apply
  simp only
  unfold BinaryOperator.apply
  simp only [RollM.run_bind, RollM.run_liftM]
  have hcount := countOperand_ne_tooManyRolls (.binary (.dice kind)) .left left
  have hdie := dieOperand_ne_tooManyRolls (.binary (.dice kind)) .right right
  cases hleft : (Operator.binary (.dice kind)).countOperand .left left with
  | error c => exact .calculated fun hc => hcount (by rw [hleft, hc])
  | ok n =>
    cases hright : (Operator.binary (.dice kind)).dieOperand .right right with
    | error c => exact .calculated fun hc => hdie (by rw [hright, hc])
    | ok die =>
      have hthrow := kind.throws_roll n die ctx
      simp only
      generalize (kind.roll n die).run.run ctx = run at hthrow ⊢
      rcases run with ⟨c | r, last⟩
      · exact .thrown rfl hthrow
      · exact .thrown rfl hthrow

theorem applies_modifier (m : Modifier) (ctx : Context ρ) :
    Applies (.binary (.modifier m)) left ctx
      (((Operator.binary (.modifier m)).apply left right).run.run ctx).1
      (((Operator.binary (.modifier m)).apply left right).run.run ctx).2 := by
  unfold apply
  simp only
  unfold BinaryOperator.apply
  simp only [RollM.run_bind]
  have hmodifier := m.applies_apply left right ctx
  generalize (m.apply left right).run.run ctx = run at hmodifier ⊢
  rcases run with ⟨outcome, last⟩
  cases hmodifier with
  | refused hc => exact .calculated hc
  | @reworked r after hleft hlength =>
    refine .calculated ⟨rfl, fun found hfound => ?_⟩
    cases hfound
    exact ⟨r, hleft, hlength⟩
  | @rerolled relation repetition r after target outcome last hm hleft hreroll =>
    have hop : Operator.binary (.modifier m) = .binary (.modifier (.reroll relation repetition)) :=
      by rw [hm]
    cases outcome with
    | error c => exact .rerolled hop hleft hreroll
    | ok => exact .rerolled hop hleft hreroll

theorem applies_arithmetic (a : Arithmetic) (ctx : Context ρ) :
    Applies (.binary (.arithmetic a)) left ctx
      (((Operator.binary (.arithmetic a)).apply left right).run.run ctx).1
      (((Operator.binary (.arithmetic a)).apply left right).run.run ctx).2 := by
  rw [run_arithmetic]
  refine .calculated (calculated_bind (numberOperand_ne_tooManyRolls _ _ _) fun x => ?_)
  exact calculated_bind (numberOperand_ne_tooManyRolls _ _ _) fun y =>
    calculated_ofArithmetic rfl _

theorem applies_test (t : Test) (ctx : Context ρ) :
    Applies (.binary (.test t)) left ctx
      (((Operator.binary (.test t)).apply left right).run.run ctx).1
      (((Operator.binary (.test t)).apply left right).run.run ctx).2 := by
  rw [run_test]
  refine .calculated (calculated_bind (numberOperand_ne_tooManyRolls _ _ _) fun x => ?_)
  exact calculated_bind (numberOperand_ne_tooManyRolls _ _ _) fun y => ⟨rfl, nofun⟩

/-- The operator form of a reroll. -/
theorem run_reroll {relation : Relation} {repetition : Repetition} {target : Number}
    (h : (Operator.binary (.modifier (.reroll relation repetition))).numberOperand .right right =
      .ok target) (r : Roll) (ctx : Context ρ) :
    ((Operator.binary (.modifier (.reroll relation repetition))).apply
        (some (.roll r)) right).run.run ctx =
      (((r.reroll relation target repetition).run ctx).1.1.map
          fun _ => .roll ((r.reroll relation target repetition).run ctx).1.2,
        ((r.reroll relation target repetition).run ctx).2) := by
  have hroll : (Operator.binary (.modifier (.reroll relation repetition))).rollOperand .left
      (some (.roll r)) = .ok r := rfl
  unfold apply
  simp only
  unfold BinaryOperator.apply Modifier.apply
  simp only [RollM.run_bind, RollM.run_liftM, h, hroll, Roll.run_rerolled]
  generalize (r.reroll relation target repetition).run ctx = run
  rcases run with ⟨⟨_ | _, after⟩, last⟩ <;> rfl

/-- Every application of an operator is one of the cases. -/
theorem applies_apply (op : Operator) (left right : Option Value) (ctx : Context ρ) :
    Applies op left ctx ((op.apply left right).run.run ctx).1
      ((op.apply left right).run.run ctx).2 := by
  cases op with
  | sign s => exact applies_sign s ctx
  | factorial => exact applies_factorial ctx
  | binary b =>
    cases b with
    | dice kind => exact applies_dice kind ctx
    | modifier m => exact applies_modifier m ctx
    | arithmetic a => exact applies_arithmetic a ctx
    | test t => exact applies_test t ctx

theorem applies_of_run {op : Operator} {ctx last : Context ρ} {result : Except RollError Value}
    (h : (op.apply left right).run.run ctx = (result, last)) :
    Applies op left ctx result last := by
  have happlies := op.applies_apply left right ctx
  rwa [h] at happlies

end Operator

end DiceNotation
