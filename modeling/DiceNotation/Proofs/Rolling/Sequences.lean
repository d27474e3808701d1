import DiceNotation.Proofs.Rolling.Budget

/-!
# Sequences of requests

Dice are asked for one by one, by throws, by operators and by rerolls, in any order and whether
or not they succeed, until the count begins anew.

* `Request.leads_runAll`, `Request.overdrawn_runAll`: what one request keeps, sequences keep.
-/

namespace DiceNotation

/-- What may roll dice: some dice, one die, an operator, a reroll. -/
inductive Request where
  | dice (n : Nat) (die : Die)
  | single (die : Die)
  | apply (op : Operator) (left right : Option Value)
  | reroll (r : Roll) (relation : Relation) (target : Number) (repetition : Repetition)

variable {ρ : Type}

namespace RollM

/-- Whether and why a computation fails, and the context after it. -/
def attempt {α : Type} (x : RollM ρ α) (ctx : Context ρ) : Except RollError Unit × Context ρ :=
  ((x.run.run ctx).1.map fun _ => (), (x.run.run ctx).2)

theorem attempt_eq_error_iff {α : Type} {x : RollM ρ α} {ctx : Context ρ} {c : RollError} :
    (x.attempt ctx).1 = .error c ↔ (x.run.run ctx).1 = .error c := by
  rw [attempt]
  cases (x.run.run ctx).1 with
  | error c' => simp only [Except.map, Except.error.injEq]
  | ok a => simp only [Except.map, reduceCtorEq]

end RollM

namespace Request

open RollM

variable [Roller ρ]

/-- Whether and why a request fails, and the context after it. -/
def run : Request → Context ρ → Except RollError Unit × Context ρ
  | dice n die, ctx => (RollM.rollDice n die).attempt ctx
  | single die, ctx => (RollM.rollDie die).attempt ctx
  | apply op left right, ctx => (op.apply left right).attempt ctx
  | reroll r relation target repetition, ctx =>
    let ((outcome, _), last) := (r.reroll relation target repetition).run ctx
    (outcome, last)

/-- The outcomes of requests in a row, and the context after all of them. -/
def runAll : List Request → Context ρ → List (Except RollError Unit) × Context ρ
  | [], ctx => ([], ctx)
  | q :: qs, ctx =>
    let (outcomes, last) := runAll qs (q.run ctx).2
    ((q.run ctx).1 :: outcomes, last)

/-- Whether a request is for dice only, not for new values in place of others. -/
def isThrow : Request → Bool
  | dice .. | single .. => true
  | apply op .. => op.isDice
  | reroll .. => false

/-- Requests that ask for dice, be it none of them. A reroll does if there is a value to roll
again. -/
inductive NeedsDice : Request → Prop where
  | throws {q : Request} : q.isThrow = true → NeedsDice q
  | rerolls {r : Roll} {relation : Relation} {target x : Number} (repetition : Repetition) :
      x ∈ r.rolls → relation.holds x target = true →
      NeedsDice (reroll r relation target repetition)
  | rerollOperator {r : Roll} {relation : Relation} {repetition : Repetition}
      {right : Option Value} {target x : Number} :
      (Operator.binary (.modifier (.reroll relation repetition))).numberOperand .right right =
        .ok target → x ∈ r.rolls → relation.holds x target = true →
      NeedsDice (apply (.binary (.modifier (.reroll relation repetition))) (some (.roll r)) right)

variable {m : Nat} {ctx : Context ρ}

theorem leads_run (q : Request) (ctx : Context ρ) : ctx.Leads (q.run ctx).2 := by
  cases q with
  | dice n die =>
    obtain ⟨outcome, hrequest, -⟩ := RollM.requested_rollDice n die ctx
    exact hrequest.leads
  | single die => exact (RollM.requested_rollDie die ctx).leads
  | apply op left right => exact (op.applies_apply left right ctx).leads
  | reroll r relation target repetition =>
    exact (r.rerolls_reroll relation target repetition ctx).leads

theorem overdrawn_run {q : Request} (h : (q.run ctx).1 = .error .tooManyRolls)
    (hlimit : ctx.limit = some m) (hm : m < maxCount) : Overdrawn m (q.run ctx).2 := by
  cases q with
  | dice n die =>
    obtain ⟨outcome, hrequest, hresult⟩ := requested_rollDice n die ctx
    rw [attempt_eq_error_iff.mp h] at hresult
    cases outcome with
    | ok values => cases hresult
    | error c =>
      cases hresult
      exact overdrawn_of_requested hrequest hlimit
  | single die =>
    have hrequest := requested_rollDie die ctx
    rw [attempt_eq_error_iff.mp h] at hrequest
    exact overdrawn_of_requested hrequest hlimit
  | apply op left right =>
    exact (op.applies_apply left right ctx).overdrawn (attempt_eq_error_iff.mp h) hlimit hm
  | reroll r relation target repetition =>
    have hreroll := r.rerolls_reroll relation target repetition ctx
    have hfail : ((r.reroll relation target repetition).run ctx).1.1 = .error .tooManyRolls := h
    rw [hfail] at hreroll
    exact hreroll.overdrawn hlimit hm

/-- A throw that fails leaves the roller alone. -/
theorem roller_run {q : Request} {c : RollError} (h : (q.run ctx).1 = .error c)
    (hthrow : q.isThrow = true) : (q.run ctx).2.roller = ctx.roller := by
  cases q with
  | dice n die =>
    obtain ⟨outcome, hrequest, hresult⟩ := requested_rollDice n die ctx
    rw [attempt_eq_error_iff.mp h] at hresult
    cases outcome with
    | ok values => cases hresult
    | error c => exact hrequest.roller_eq
  | single die =>
    have hrequest := requested_rollDie die ctx
    rw [attempt_eq_error_iff.mp h] at hrequest
    exact hrequest.roller_eq
  | apply op left right =>
    exact (op.applies_apply left right ctx).roller_eq (attempt_eq_error_iff.mp h) hthrow
  | reroll r relation target repetition => cases hthrow

theorem exists_error_of_throw {q : Request} (hover : Overdrawn m ctx) (hm : m < maxCount)
    (hthrow : q.isThrow = true) : ∃ c, (q.run ctx).1 = .error c := by
  cases q with
  | dice n die =>
    obtain ⟨outcome, hrequest, hresult⟩ := requested_rollDice n die ctx
    rw [(hover.request hm hrequest).1] at hresult
    exact ⟨_, attempt_eq_error_iff.mpr hresult⟩
  | single die =>
    have hresult := (hover.request hm (requested_rollDie die ctx)).1
    cases hdie : ((rollDie die).run.run ctx).1 with
    | error c => exact ⟨c, attempt_eq_error_iff.mpr hdie⟩
    | ok x =>
      rw [hdie] at hresult
      cases hresult
  | apply op left right =>
    obtain ⟨c, hc⟩ :=
      (op.applies_apply left right ctx).exists_error_of_overdrawn hthrow hover hm
    exact ⟨c, attempt_eq_error_iff.mpr hc⟩
  | reroll r relation target repetition => cases hthrow

theorem exists_error_of_reroll {r : Roll} {relation : Relation} {target x : Number}
    (hover : Overdrawn m ctx) (hm : m < maxCount) (hx : x ∈ r.rolls)
    (hmatch : relation.holds x target = true) (repetition : Repetition) :
    ∃ c, ((r.reroll relation target repetition).run ctx).1.1 = .error c := by
  have hreroll := r.rerolls_reroll relation target repetition ctx
  cases hresult : ((r.reroll relation target repetition).run ctx).1.1 with
  | error c => exact ⟨c, rfl⟩
  | ok =>
    rw [hresult] at hreroll
    rw [hreroll.eq_false_of_overdrawn hover hm x hx] at hmatch
    cases hmatch

/-- Beyond the budget, whatever needs dice fails. -/
theorem exists_error_of_overdrawn {q : Request} (hover : Overdrawn m ctx) (hm : m < maxCount)
    (hneeds : q.NeedsDice) : ∃ c, (q.run ctx).1 = .error c := by
  cases hneeds with
  | throws hthrow => exact exists_error_of_throw hover hm hthrow
  | rerolls repetition hx hmatch => exact exists_error_of_reroll hover hm hx hmatch repetition
  | @rerollOperator r relation repetition right target x htarget hx hmatch =>
    obtain ⟨c, hc⟩ := exists_error_of_reroll hover hm hx hmatch repetition
    refine ⟨c, attempt_eq_error_iff.mpr ?_⟩
    rw [Operator.run_reroll htarget, hc]
    rfl

/-! ## In a row -/

theorem leads_runAll (qs : List Request) (ctx : Context ρ) : ctx.Leads (runAll qs ctx).2 := by
  induction qs generalizing ctx with
  | nil => exact .refl ctx
  | cons q qs ih => exact (q.leads_run ctx).trans (ih (q.run ctx).2)

theorem overdrawn_runAll {qs : List Request} (h : .error .tooManyRolls ∈ (runAll qs ctx).1)
    (hlimit : ctx.limit = some m) (hm : m < maxCount) : Overdrawn m (runAll qs ctx).2 := by
  induction qs generalizing ctx with
  | nil => exact absurd h List.not_mem_nil
  | cons q qs ih =>
    have hlimit' : (q.run ctx).2.limit = some m := (q.leads_run ctx).limit_eq.trans hlimit
    rcases List.mem_cons.mp h with hfirst | hrest
    · have hover := overdrawn_run hfirst.symm hlimit hm
      exact (hover.leads hm (leads_runAll qs _)).1
    · exact ih hrest hlimit'

end Request

end DiceNotation
