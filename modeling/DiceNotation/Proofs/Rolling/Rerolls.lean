import DiceNotation.Proofs.Rolling.Requests
import DiceNotation.Roll.Reroll

/-!
# Rerolling case by case

A reroll goes through the values of a roll. It spares a value or requests dice for it, one at a
time, until it is done with the value or a request fails.

* `Roll.rerolls_reroll`: every reroll is made of these cases, so that a fact about rerolling is an
  induction over them.
-/

namespace DiceNotation.Roll

variable {ρ : Type} [Roller ρ]

/-! ## One value -/

/-- How a rejected value is rolled again, with a bound on the attempts. -/
inductive RollsAgain (die : Die) (rejects : Number → Bool) (repetition : Repetition) :
    Nat → Number → Context ρ → Rerolled Number → Context ρ → Prop where
  | tired {x : Number} {ctx : Context ρ} :
      RollsAgain die rejects repetition 0 x ctx ⟨.error .tooManyRolls, x, []⟩ ctx
  | fails {attempts : Nat} {x : Number} {c : RollError} {ctx last : Context ρ} :
      Requested .one die ctx (.error c) last →
      RollsAgain die rejects repetition (attempts + 1) x ctx ⟨.error c, x, []⟩ last
  | lands {attempts : Nat} {x y : Number} {ctx last : Context ρ} :
      Requested .one die ctx (.ok [y]) last → (repetition = .always → rejects y = false) →
      RollsAgain die rejects repetition (attempts + 1) x ctx ⟨.ok (), y, [x]⟩ last
  | again {attempts : Nat} {x y z : Number} {outcome : Except RollError Unit}
      {rejected : List Number} {ctx mid last : Context ρ} :
      repetition = .always → Requested .one die ctx (.ok [y]) mid → rejects y = true →
      RollsAgain die rejects repetition attempts y mid ⟨outcome, z, rejected⟩ last →
      RollsAgain die rejects repetition (attempts + 1) x ctx ⟨outcome, z, x :: rejected⟩ last

theorem rerollOnce_cases (die : Die) (x : Number) (ctx : Context ρ) :
    (∃ c last, Requested .one die ctx (.error c) last ∧
      (rerollOnce die x).run ctx = (⟨.error c, x, []⟩, last)) ∨
    ∃ y last, Requested .one die ctx (.ok [y]) last ∧
      (rerollOnce die x).run ctx = (⟨.ok (), y, [x]⟩, last) := by
  have hrequest := RollM.requested_rollDie die ctx
  unfold rerollOnce
  rw [StateT.run_bind]
  generalize (RollM.rollDie die).run.run ctx = run at hrequest ⊢
  rcases run with ⟨c | y, last⟩
  · exact .inl ⟨c, last, hrequest, rfl⟩
  · exact .inr ⟨y, last, hrequest, rfl⟩

variable {die : Die} {rejects : Number → Bool} {repetition : Repetition}

theorem rollsAgain_once (attempts : Nat) (x : Number) (ctx : Context ρ) :
    RollsAgain die rejects .once (attempts + 1) x ctx ((rerollOnce die x).run ctx).1
      ((rerollOnce die x).run ctx).2 := by
  rcases rerollOnce_cases die x ctx with ⟨c, last, hrequest, hrun⟩ | ⟨y, last, hrequest, hrun⟩
  · rw [hrun]
    exact .fails hrequest
  · rw [hrun]
    exact .lands hrequest nofun

/-- What follows a die that was rolled again. -/
theorem run_rerollUntil {attempts : Nat} {x y : Number} {ctx mid : Context ρ}
    (h : (rerollOnce die x).run ctx = (⟨.ok (), y, [x]⟩, mid)) :
    (rerollUntil die rejects (attempts + 1) x).run ctx =
      if rejects y then
        let (last, ctx) := (rerollUntil die rejects attempts y).run mid
        (⟨last.outcome, last.kept, x :: last.rejected⟩, ctx)
      else (⟨.ok (), y, [x]⟩, mid) := by
  rw [rerollUntil, StateT.run_bind, h]
  change (if rejects y then _ else pure _ : StateM (Context ρ) (Rerolled Number)).run mid = _
  cases rejects y <;> rfl

theorem rollsAgain_until (attempts : Nat) (x : Number) (ctx : Context ρ) :
    RollsAgain die rejects .always attempts x ctx
      ((rerollUntil die rejects attempts x).run ctx).1
      ((rerollUntil die rejects attempts x).run ctx).2 := by
  induction attempts generalizing x ctx with
  | zero => exact .tired
  | succ attempts ih =>
    rcases rerollOnce_cases die x ctx with ⟨c, mid, hrequest, hrun⟩ | ⟨y, mid, hrequest, hrun⟩
    · rw [rerollUntil, StateT.run_bind, hrun]
      exact .fails hrequest
    · rw [run_rerollUntil hrun]
      cases hagain : rejects y with
      | false => exact .lands hrequest fun _ => hagain
      | true => exact .again rfl hrequest hagain (ih y mid)

/-! ## All values -/

/-- How the values of a roll are gone through. -/
inductive RerollsAll (die : Die) (rejects : Number → Bool) (repetition : Repetition) :
    List Number → Context ρ → Rerolled (List Number) → Context ρ → Prop where
  | done {ctx : Context ρ} : RerollsAll die rejects repetition [] ctx ⟨.ok (), [], []⟩ ctx
  | spares {x : Number} {xs ys rest : List Number} {outcome : Except RollError Unit}
      {ctx last : Context ρ} : rejects x = false →
      RerollsAll die rejects repetition xs ctx ⟨outcome, ys, rest⟩ last →
      RerollsAll die rejects repetition (x :: xs) ctx ⟨outcome, x :: ys, rest⟩ last
  | stops {x y : Number} {xs rejected : List Number} {c : RollError} {ctx last : Context ρ} :
      rejects x = true →
      RollsAgain die rejects repetition maxAttempts x ctx ⟨.error c, y, rejected⟩ last →
      RerollsAll die rejects repetition (x :: xs) ctx ⟨.error c, y :: xs, rejected⟩ last
  | rerolls {x y : Number} {xs ys rejected rest : List Number}
      {outcome : Except RollError Unit} {ctx mid last : Context ρ} : rejects x = true →
      RollsAgain die rejects repetition maxAttempts x ctx ⟨.ok (), y, rejected⟩ mid →
      RerollsAll die rejects repetition xs mid ⟨outcome, ys, rest⟩ last →
      RerollsAll die rejects repetition (x :: xs) ctx ⟨outcome, y :: ys, rejected ++ rest⟩ last

theorem rollsAgain_rerollValue (die : Die) (repetition : Repetition) {x : Number}
    (h : rejects x = true) (ctx : Context ρ) :
    RollsAgain die rejects repetition maxAttempts x ctx
      ((rerollValue die rejects repetition x).run ctx).1
      ((rerollValue die rejects repetition x).run ctx).2 := by
  unfold rerollValue
  rw [if_pos h]
  cases repetition with
  | once => exact rollsAgain_once maxCount x ctx
  | always => exact rollsAgain_until maxAttempts x ctx

theorem rerollsAll_rerollValues (die : Die) (rejects : Number → Bool) (repetition : Repetition)
    (xs : List Number) (ctx : Context ρ) :
    RerollsAll die rejects repetition xs ctx
      ((rerollValues die rejects repetition xs).run ctx).1
      ((rerollValues die rejects repetition xs).run ctx).2 := by
  induction xs generalizing ctx with
  | nil => exact .done
  | cons x xs ih =>
    unfold rerollValues
    rw [StateT.run_bind]
    cases hreject : rejects x with
    | false =>
      have hspare : (rerollValue die rejects repetition x).run ctx = (⟨.ok (), x, []⟩, ctx) := by
        unfold rerollValue
        rw [hreject]
        rfl
      rw [hspare]
      exact .spares hreject (ih ctx)
    | true =>
      have hfirst := rollsAgain_rerollValue die repetition hreject ctx
      generalize (rerollValue die rejects repetition x).run ctx = run at hfirst ⊢
      rcases run with ⟨⟨c | _, y, rejected⟩, mid⟩
      · exact .stops hreject hfirst
      · exact .rerolls hreject hfirst (ih mid)

/-! ## A roll -/

/-- How a roll is rerolled. -/
inductive Rerolls (r : Roll) (relation : Relation) (target : Number) (repetition : Repetition)
    (ctx : Context ρ) : Except RollError Unit → Roll → Context ρ → Prop where
  | refused : repetition = .always → r.die.canEscape relation target = false →
      Rerolls r relation target repetition ctx (.error (.endlessReroll r.die)) r ctx
  | fails {c : RollError} {kept rejected : List Number} {last : Context ρ} :
      RerollsAll r.die (relation.holds · target) repetition r.rolls ctx
        ⟨.error c, kept, rejected⟩ last →
      Rerolls r relation target repetition ctx (.error c)
        { r with rolls := kept, discards := r.discards ++ rejected } last
  | succeeds {kept rejected : List Number} {last : Context ρ} :
      RerollsAll r.die (relation.holds · target) repetition r.rolls ctx
        ⟨.ok (), kept, rejected⟩ last →
      Rerolls r relation target repetition ctx (.ok ())
        (sorted { r with rolls := kept, discards := r.discards ++ rejected }) last

/-- Every reroll is one of the cases. -/
theorem rerolls_reroll (r : Roll) (relation : Relation) (target : Number)
    (repetition : Repetition) (ctx : Context ρ) :
    Rerolls r relation target repetition ctx
      ((r.reroll relation target repetition).run ctx).1.1
      ((r.reroll relation target repetition).run ctx).1.2
      ((r.reroll relation target repetition).run ctx).2 := by
  by_cases hrefuse : repetition = .always ∧ r.die.canEscape relation target = false
  · unfold reroll
    rw [if_pos hrefuse]
    exact .refused hrefuse.1 hrefuse.2
  · unfold reroll
    rw [if_neg hrefuse]
    have hall := rerollsAll_rerollValues r.die (relation.holds · target) repetition r.rolls ctx
    rw [StateT.run_bind]
    generalize (rerollValues r.die (relation.holds · target) repetition r.rolls).run ctx = run
      at hall ⊢
    rcases run with ⟨⟨c | _, kept, rejected⟩, last⟩
    · exact .fails hall
    · exact .succeeds hall

end DiceNotation.Roll
