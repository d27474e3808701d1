import DiceNotation.Context

/-!
# Requests for dice

A request is for a single die or for many equal dice at once. It is counted, and then it either
fails or rolls as many dice as it was for.

* `RollM.requested_rollDice`, `RollM.requested_rollDie`: these are the only outcomes.
* `Requested.shownOn_eq`: the values that come out are those of the dice on record.
-/

namespace DiceNotation

variable {ρ : Type}

/-! ## The record -/

/-- The values that a die showed in the recorded rolls, from the first to the last. -/
def Recorded.shownOn (die : Die) (r : Recorded ρ) : List Number :=
  r.record.reverse.map fun roll => die.shown roll.2

theorem Recorded.length_shownOn (die : Die) (r : Recorded ρ) :
    (r.shownOn die).length = r.drawn := by
  rw [shownOn, List.length_map, List.length_reverse, drawn]

/-! ## What a roller is asked for -/

/-- A roller is asked for a single die, or for many at once. -/
inductive Roller.Call where
  | one
  | many (n : Nat)

namespace Roller.Call

/-- The number of dice. -/
def count : Call → Nat
  | one => 1
  | many n => n

@[simp] theorem count_one : one.count = 1 := rfl

@[simp] theorem count_many (n : Nat) : (many n).count = n := rfl

/-- How a roller answers, with dice of equal sides. -/
def draw [Roller ρ] (s : Sides) : Call → StateM ρ (List UInt32)
  | one => return [← Roller.roll s]
  | many n => Roller.rollMany n s

variable [Roller ρ] (call : Call) (s : Sides)

@[simp] theorem draw_many (n : Nat) : (many n).draw s = (Roller.rollMany n s : StateM ρ _) := rfl

theorem length_draw (r : ρ) : ((call.draw s).run r).1.length = call.count := by
  cases call with
  | one => rfl
  | many n => exact Roller.length_rollMany n s r

theorem record_draw (r : Recorded ρ) :
    ((call.draw s).run r).2.record =
      (((call.draw s).run r).1.map fun x => (s, x)).reverse ++ r.record := by
  cases call <;> rfl

end Roller.Call

/-! ## Running -/

namespace RollM

theorem run_bind {α β : Type} (x : RollM ρ α) (f : α → RollM ρ β) (ctx : Context ρ) :
    (x >>= f).run.run ctx =
      match x.run.run ctx with
      | (.error c, mid) => (.error c, mid)
      | (.ok a, mid) => (f a).run.run mid := by
  rw [ExceptT.run_bind, StateT.run_bind]
  generalize x.run.run ctx = run
  rcases run with ⟨_ | a, mid⟩ <;> rfl

theorem run_count (n : Nat) (ctx : Context ρ) :
    (count n).run.run ctx =
      (if (ctx.charge n).isExhausted then .error .tooManyRolls else .ok (), ctx.charge n) := by
  change (if (ctx.charge n).isExhausted then throw .tooManyRolls
    else pure () : RollM ρ Unit).run.run (ctx.charge n) = _
  split <;> rfl

theorem run_onRoller {α : Type} (action : StateM ρ α) (ctx : Context ρ) :
    (onRoller action).run.run ctx =
      (.ok (action.run ctx.roller).1, { ctx with roller := (action.run ctx.roller).2 }) := rfl

end RollM

/-! ## Outcomes -/

variable [Roller ρ]

/-- The outcome of a request for dice, with the values that they show, and the context after it. -/
inductive Requested (call : Roller.Call) (die : Die) (ctx : Context ρ) :
    Except RollError (List Number) → Context ρ → Prop where
  | exhausted : (ctx.charge call.count).isExhausted = true →
      Requested call die ctx (.error .tooManyRolls) (ctx.charge call.count)
  | unrollable {c : RollError} : (ctx.charge call.count).isExhausted = false →
      die.rolledSides = .error c → Requested call die ctx (.error c) (ctx.charge call.count)
  | rolled {s : Sides} {draws : List UInt32} {roller : ρ} :
      (ctx.charge call.count).isExhausted = false → die.rolledSides = .ok s →
      (call.draw s).run ctx.roller = (draws, roller) →
      Requested call die ctx (.ok (draws.map die.shown)) { ctx.charge call.count with roller }

namespace RollM

theorem requested_rollDice (n : Nat) (die : Die) (ctx : Context ρ) :
    ∃ outcome, Requested (.many n) die ctx outcome ((rollDice n die).run.run ctx).2 ∧
      ((rollDice n die).run.run ctx).1 = outcome.map (Roll.of · die) := by
  rw [rollDice, run_bind, run_count]
  cases hcount : (ctx.charge n).isExhausted with
  | true => exact ⟨_, .exhausted hcount, rfl⟩
  | false =>
    cases hsides : die.rolledSides with
    | error c => exact ⟨_, .unrollable hcount hsides, rfl⟩
    | ok s => exact ⟨_, .rolled hcount hsides rfl, rfl⟩

theorem requested_rollDie (die : Die) (ctx : Context ρ) :
    Requested .one die ctx (((rollDie die).run.run ctx).1.map fun x => [x])
      ((rollDie die).run.run ctx).2 := by
  rw [rollDie, run_bind, run_count]
  cases hcount : (ctx.charge 1).isExhausted with
  | true => exact .exhausted hcount
  | false =>
    cases hsides : die.rolledSides with
    | error c => exact .unrollable hcount hsides
    | ok s => exact .rolled hcount hsides rfl

end RollM

namespace Requested

variable {call : Roller.Call} {die : Die} {outcome : Except RollError (List Number)}

theorem length_eq {values : List Number} {ctx last : Context ρ}
    (h : Requested call die ctx (.ok values) last) : values.length = call.count := by
  cases h with
  | rolled hcount hsides hdraws =>
    rw [List.length_map, ← call.length_draw _ ctx.roller, hdraws]

theorem shownOn_eq {ctx last : Context (Recorded ρ)} (h : Requested call die ctx outcome last) :
    last.roller.shownOn die = ctx.roller.shownOn die ++ outcome.toOption.getD [] := by
  cases h with
  | exhausted hcount => exact (List.append_nil _).symm
  | unrollable hcount hsides => exact (List.append_nil _).symm
  | @rolled s draws roller hcount hsides hdraws =>
    have hrecord := call.record_draw s ctx.roller
    rw [hdraws] at hrecord
    change (roller.record.reverse.map fun roll => die.shown roll.2) = _ ++ draws.map die.shown
    rw [hrecord, List.reverse_append, List.reverse_reverse, List.map_append, List.map_map]
    rfl

end Requested

end DiceNotation
