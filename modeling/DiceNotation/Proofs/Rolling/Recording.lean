import DiceNotation.Proofs.Rolling.Alike

/-!
# Recording changes nothing

Rolling with a recorded roller has the outcome that it has with the roller itself, so that the
record tells what dice were rolled without one.

* `Roll.mirrors_reroll`: rerolling is the same beside the record.
-/

namespace DiceNotation

variable {ρ α : Type}

namespace Context

/-- The same context with the record of its rolls, which begins here. -/
def recording (ctx : Context ρ) : Context (Recorded ρ) :=
  ⟨ctx.limit, ctx.rolled, Recorded.start ctx.roller⟩

/-- The same context without the record. -/
def unrecorded (ctx : Context (Recorded ρ)) : Context ρ :=
  ⟨ctx.limit, ctx.rolled, ctx.roller.roller⟩

theorem unrecorded_recording (ctx : Context ρ) : ctx.recording.unrecorded = ctx := rfl

end Context

/-- The values of the dice that a computation draws, shown on a die. The record tells them. -/
def drawnBy [Roller ρ] (x : StateM (Context (Recorded ρ)) α) (die : Die) (ctx : Context ρ) :
    List Number :=
  (x.run ctx.recording).2.roller.shownOn die

/-- Two computations, the first with a record and the second without, that are the same
otherwise. -/
def Mirrors (x : StateM (Context (Recorded ρ)) α) (y : StateM (Context ρ) α) : Prop :=
  ∀ ctx, y.run ctx.unrecorded = ((x.run ctx).1, (x.run ctx).2.unrecorded)

theorem mirrors_iff_alike {x : StateM (Context (Recorded ρ)) α} {y : StateM (Context ρ) α} :
    Mirrors x y ↔ Alike (fun ctx other => other = ctx.unrecorded) x y := by
  constructor
  · rintro h ctx other rfl
    rw [h ctx]
    exact ⟨rfl, rfl⟩
  · intro h ctx
    obtain ⟨hvalue, hlast⟩ := h ctx ctx.unrecorded rfl
    exact Prod.ext hvalue.symm hlast

variable [Roller ρ]

namespace RollM

theorem rollsAlike_unrecorded :
    RollsAlike fun (ctx : Context (Recorded ρ)) (other : Context ρ) => other = ctx.unrecorded :=
  rollsAlike_map Recorded.roller Roller.commutes_roller

theorem mirrors_rollDice (n : Nat) (die : Die) :
    Mirrors (rollDice n die : RollM (Recorded ρ) Roll).run (rollDice n die : RollM ρ Roll).run :=
  mirrors_iff_alike.mpr (rollsAlike_unrecorded.many n die)

end RollM

theorem Roll.mirrors_reroll (r : Roll) (relation : Relation) (target : Number)
    (repetition : Repetition) :
    Mirrors (ρ := ρ) (r.reroll relation target repetition)
      (r.reroll relation target repetition) := by
  rw [mirrors_iff_alike]
  exact r.alike_reroll relation target repetition (RollM.rollsAlike_unrecorded.one r.die)

end DiceNotation
