import DiceNotation.Proofs.Operator.Applications
import DiceNotation.Proofs.Rolling.Stopping

/-!
# Refused operands cost nothing

An operator checks its operands before it counts or rolls any dice, and rerolls are refused before
the first die. After that only the budget can fail. So an operator that does not accept its
operands leaves the context as it was.

* `RollM.RefusesFreely`: whether a computation is of that kind, with rules for checks and results.
* `DiceKind.refusesFreely_roll`, `Roll.refusesFreely_rerolled`: whatever rolls dice is.
* `Operator.eq_of_apply_error`: and so are all operators.
-/

namespace DiceNotation

variable {ρ : Type}

/-! ## Failing before the first effect -/

namespace RollM

variable {α β : Type}

/-- Whether a computation that fails for another reason than an exceeded budget has neither counted
dice nor used the roller. -/
def RefusesFreely (x : RollM ρ α) : Prop :=
  ∀ ctx c last, x.run.run ctx = (.error c, last) → c ≠ .tooManyRolls → last = ctx

theorem refusesFreely_pure (a : α) : RefusesFreely (pure a : RollM ρ α) := by
  intro ctx c last h
  cases h

theorem refusesFreely_liftM (x : Except RollError α) : RefusesFreely (liftM x : RollM ρ α) := by
  intro ctx c last h _
  rw [run_liftM] at h
  exact (congrArg Prod.snd h).symm

theorem refusesFreely_count (n : Nat) : RefusesFreely (count n : RollM ρ Unit) := by
  intro ctx c last h hc
  rw [run_count] at h
  split at h
  · cases h
    exact absurd rfl hc
  · cases h

/-- A check in front costs nothing. -/
theorem RefusesFreely.check {x : Except RollError β} {k : β → RollM ρ α}
    (hk : ∀ b, x = .ok b → RefusesFreely (k b)) :
    RefusesFreely ((liftM x : RollM ρ β) >>= k) := by
  intro ctx c last h hc
  rw [run_bind, run_liftM] at h
  cases x with
  | error c' => exact (congrArg Prod.snd h).symm
  | ok b => exact hk b rfl ctx c last h hc

/-- What is made of the result cannot fail. -/
theorem RefusesFreely.result {x : RollM ρ β} (hx : RefusesFreely x) (f : β → α) :
    RefusesFreely (x >>= fun b => pure (f b)) := by
  intro ctx c last h hc
  rw [run_bind] at h
  generalize hrun : x.run.run ctx = run at h
  rcases run with ⟨c' | b, mid⟩
  · cases h
    exact hx ctx _ _ hrun hc
  · cases h

end RollM

open RollM

/-! ## Operands -/

/-- Whether the faces behind a value can be numbered within 32 bits. -/
def Value.IsNumberable : Value → Prop
  | .number _ => True
  | .roll r => r.die.IsNumberable
  | .faces f => (Die.faces f).IsNumberable

namespace Operator

variable {op : Operator} {side : Side} {value : Option Value}

theorem isNumberable_of_dieOperand (hvalue : ∀ v, value = some v → v.IsNumberable) {die : Die}
    (h : op.dieOperand side value = .ok die) : die.IsNumberable := by
  rcases dieOperand_cases op side value h with ⟨s, rfl⟩ | ⟨f, hf, rfl⟩
  · trivial
  · exact hvalue _ hf

theorem isNumberable_of_rollOperand {m : Modifier} (hvalue : ∀ v, value = some v → v.IsNumberable)
    {r : Roll} (h : (Operator.binary (.modifier m)).rollOperand .left value = .ok r) :
    r.die.IsNumberable :=
  hvalue _ (eq_of_rollOperand value h)

end Operator

variable [Roller ρ]

/-! ## Rolling dice -/

theorem RollM.refusesFreely_rollDice {die : Die} (hdie : die.IsNumberable) (n : Nat) :
    RefusesFreely (rollDice n die : RollM ρ Roll) := by
  intro ctx c last h hc
  obtain ⟨outcome, hrequest, hresult⟩ := requested_rollDice n die ctx
  rw [h] at hrequest hresult
  cases outcome with
  | error c' =>
    cases hresult
    exact absurd (hrequest.eq_tooManyRolls hdie) hc
  | ok values => cases hresult

theorem DiceKind.refusesFreely_roll (kind : DiceKind) {die : Die} (hdie : die.IsNumberable)
    (n : Nat) : RefusesFreely (kind.roll n die : RollM ρ Roll) := by
  cases kind with
  | plain => exact refusesFreely_rollDice hdie n
  | critical => exact refusesFreely_rollDice hdie (2 * n)
  | average => exact (refusesFreely_count n).result fun _ => _
  | maximum => exact (refusesFreely_count n).result fun _ => _

theorem Roll.refusesFreely_rerolled {r : Roll} (hdie : r.die.IsNumberable) (relation : Relation)
    (target : Number) (repetition : Repetition) :
    RefusesFreely (r.rerolled relation target repetition : RollM ρ Roll) := by
  intro ctx c last h hc
  rw [run_rerolled] at h
  have hrefused : ((r.reroll relation target repetition).run ctx).1.1 = .error c := by
    cases houtcome : ((r.reroll relation target repetition).run ctx).1.1 with
    | error c' =>
      rw [houtcome] at h
      cases h
      rfl
    | ok =>
      rw [houtcome] at h
      cases h
  have hlast : ((r.reroll relation target repetition).run ctx).2 = last := congrArg Prod.snd h
  rw [← hlast, eq_of_reroll_error hdie hrefused hc]

/-! ## Applying operators -/

variable {left right : Option Value}

theorem Modifier.refusesFreely_apply (m : Modifier)
    (hleft : ∀ v, left = some v → v.IsNumberable) :
    RefusesFreely (m.apply left right : RollM ρ Roll) := by
  cases m with
  | reroll relation repetition =>
    refine .check fun target _ => .check fun r hr => ?_
    exact Roll.refusesFreely_rerolled (Operator.isNumberable_of_rollOperand hleft hr) _ _ _
  | _ => exact .check fun _ _ => .check fun _ _ => refusesFreely_pure _

/-- An operator that fails for another reason than an exceeded budget has neither counted dice nor
used the roller, whatever its operands are. -/
theorem Operator.eq_of_apply_error (op : Operator) (hleft : ∀ v, left = some v → v.IsNumberable)
    (hright : ∀ v, right = some v → v.IsNumberable) {ctx last : Context ρ} {c : RollError}
    (h : (op.apply left right).run.run ctx = (.error c, last)) (hc : c ≠ .tooManyRolls) :
    last = ctx := by
  have hop : RefusesFreely (op.apply left right : RollM ρ Value) := by
    cases op with
    | sign s => exact .check fun _ _ => refusesFreely_pure _
    | factorial => exact .check fun _ _ => refusesFreely_liftM _
    | binary b =>
      cases b with
      | dice kind =>
        refine .check fun n _ => .check fun die hdie => ?_
        exact (kind.refusesFreely_roll (isNumberable_of_dieOperand hright hdie) n).result _
      | modifier m => exact (m.refusesFreely_apply hleft).result _
      | arithmetic a => exact .check fun _ _ => .check fun _ _ => refusesFreely_liftM _
      | test t => exact .check fun _ _ => .check fun _ _ => refusesFreely_pure _
  exact hop ctx c last h hc

/-- No face of the fudge die is below `-1`, so that values above `-2` would be rerolled forever. -/
theorem Operator.eq_of_apply_error_endless :
    let r : Roll := ⟨[.int 0], [], .faces .fudge⟩
    let op : Operator := .binary (.modifier (.reroll .higher .always))
    let left : Option Value := some (.roll r)
    let right : Option Value := some (.number (.int (-2)))
    let ctx := Context.start (some 10) (⟨[1, 2], .constant 3⟩ : Script)
    let run := (op.apply left right).run.run ctx
    (∀ v, left = some v → v.IsNumberable) ∧ (∀ v, right = some v → v.IsNumberable) ∧
      run = (.error (.endlessReroll r.die), run.2) ∧
      RollError.endlessReroll r.die ≠ .tooManyRolls ∧ run.2 = ctx := by
  intro r op left right ctx run
  have hleft : ∀ v, left = some v → v.IsNumberable := by
    intro v hv
    rw [← Option.some.inj hv]
    change Faces.fudge.length < UInt32.size
    decide
  have hright : ∀ v, right = some v → v.IsNumberable := by
    intro v hv
    rw [← Option.some.inj hv]
    trivial
  have hrun : run = (.error (.endlessReroll r.die), run.2) := Prod.ext rfl rfl
  exact ⟨hleft, hright, hrun, nofun, op.eq_of_apply_error hleft hright hrun nofun⟩

end DiceNotation
