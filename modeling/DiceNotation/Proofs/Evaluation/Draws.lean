import DiceNotation.Proofs.Evaluation.Alike
import DiceNotation.Proofs.Rolling.Recording

/-!
# What an evaluation draws

The draws of an evaluation are what a record of it shows, each with the sides of the die that was
rolled. An evaluation that goes on with a record adds the same draws to it.

* `Formula.mirrors_evaluate`: evaluations are the same beside the record.
* `Formula.record_evaluate`: a record grows by the draws of the evaluation.
-/

namespace DiceNotation.Formula

variable {ρ : Type} [Roller ρ]

/-- The draws of an evaluation, from the first to the last. -/
def draws (f : Formula) (ctx : Context ρ) : List (Sides × UInt32) :=
  (f.evaluate.run ctx.recording).2.roller.record.reverse

theorem mirrors_evaluate (f : Formula) (ctx : Context (Recorded ρ)) :
    f.evaluate.run ctx.unrecorded =
      ((f.evaluate.run ctx).1, (f.evaluate.run ctx).2.unrecorded) := by
  have hstart : ctx.unrecorded.reset = ctx.reset.unrecorded := rfl
  obtain ⟨hresult, hlast⟩ := f.evaluate_alike (Context.countsAlike_map Recorded.roller)
    (fun _ _ _ _ _ => RollM.rollsAlike_unrecorded) hstart
  exact Prod.ext hresult.symm hlast

/-- What a record shows after an evaluation is what it showed before and the draws. -/
theorem record_evaluate (f : Formula) (ctx : Context (Recorded ρ)) :
    (f.evaluate.run ctx).2.roller.record.reverse =
      ctx.roller.record.reverse ++ f.draws ctx.unrecorded := by
  -- the roller that has an empty record instead is followed by the one with the record
  let φ : Recorded ρ → Recorded ρ := fun r => ⟨r.roller, r.record ++ ctx.roller.record⟩
  have hφ : Roller.Commutes φ :=
    ⟨fun _ _ => rfl,
      fun _ _ _ => Prod.ext rfl (congrArg (Recorded.mk _) (List.append_assoc _ _ _).symm)⟩
  have hstart : ctx.reset = ctx.unrecorded.recording.reset.map φ := rfl
  obtain ⟨-, hlast⟩ := f.evaluate_alike (Context.countsAlike_map φ)
    (fun _ _ _ _ _ => rollsAlike_map φ hφ) hstart
  rw [hlast, draws, ← List.reverse_append]
  rfl

/-- A formula that remembers its value draws nothing. -/
theorem draws_of_remembered {f : Formula} (h : ∀ e, f.root = some e → e.memory.isSome)
    (ctx : Context ρ) : f.draws ctx = [] := by
  unfold draws
  cases hroot : f.root with
  | none =>
    rw [evaluate_of_empty hroot]
    rfl
  | some e =>
    obtain ⟨v, hv⟩ := Option.isSome_iff_exists.mp (h e hroot)
    rw [evaluate_of_root hroot (Expr.evaluate_of_memory hv _)]
    rfl

end DiceNotation.Formula
