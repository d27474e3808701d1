import DiceNotation.Context
import DiceNotation.Roll.Rework

/-!
# Rerolling

The values of a roll that stand to a target as asked are rolled again, once or until they no
longer do. Every replaced value goes to the discards, and a reroll that fails keeps what it has
done so far.
-/

namespace DiceNotation

/-- Whether the die can show a value that does not stand to the target as asked. For numbered
sides the least and the greatest side decide. -/
def Die.canEscape (die : Die) (relation : Relation) (target : Number) : Bool :=
  match die with
  | .sides s =>
    match relation with
    | .equal => 1 < s.count || !(target == .one)
    | .lower => target.le s.toNumber
    | .higher => Number.one.le target
  | .faces f => f.toList.any fun x => !relation.holds x target

namespace Roll

/-- What became of values that were rolled again: how it ended, the values that are kept, and
the rejected ones in the order in which they were rejected. -/
structure Rerolled (α : Type) where
  outcome : Except RollError Unit
  kept : α
  rejected : List Number

/-- The greatest number of times that one die is rerolled. No budget allows for more. -/
def maxAttempts : Nat := maxCount + 1

variable {ρ : Type} [Roller ρ]

/-- Rolls one value again, once. -/
def rerollOnce (die : Die) (x : Number) : StateM (Context ρ) (Rerolled Number) := do
  match ← (RollM.rollDie die).run with
  | .error e => return ⟨.error e, x, []⟩
  | .ok y => return ⟨.ok (), y, [x]⟩

/-- Rolls a value again until it is accepted. -/
def rerollUntil (die : Die) (rejects : Number → Bool) :
    Nat → Number → StateM (Context ρ) (Rerolled Number)
  | 0, x => return ⟨.error .tooManyRolls, x, []⟩
  | attempts + 1, x => do
    let next ← rerollOnce die x
    match next.outcome with
    | .error _ => return next
    | .ok () =>
      if rejects next.kept then
        let last ← rerollUntil die rejects attempts next.kept
        return { last with rejected := next.rejected ++ last.rejected }
      else return next

/-- Rolls a rejected value again, as often as asked. -/
def rerollValue (die : Die) (rejects : Number → Bool) (repetition : Repetition) (x : Number) :
    StateM (Context ρ) (Rerolled Number) :=
  if rejects x then
    match repetition with
    | .once => rerollOnce die x
    | .always => rerollUntil die rejects maxAttempts x
  else return ⟨.ok (), x, []⟩

/-- Goes through values from the first to the last, up to a failure. -/
def rerollValues (die : Die) (rejects : Number → Bool) (repetition : Repetition) :
    List Number → StateM (Context ρ) (Rerolled (List Number))
  | [] => return ⟨.ok (), [], []⟩
  | x :: xs => do
    let first ← rerollValue die rejects repetition x
    match first.outcome with
    | .error e => return ⟨.error e, first.kept :: xs, first.rejected⟩
    | .ok () =>
      let others ← rerollValues die rejects repetition xs
      return ⟨others.outcome, first.kept :: others.kept, first.rejected ++ others.rejected⟩

/-- Rerolls the values that stand to the target as asked, and restores the order at the end. A
reroll that could never end is refused before anything is rolled. -/
def reroll (r : Roll) (relation : Relation) (target : Number) (repetition : Repetition) :
    StateM (Context ρ) (Except RollError Unit × Roll) := do
  if repetition = .always ∧ r.die.canEscape relation target = false then
    return (.error (.endlessReroll r.die), r)
  let result ← rerollValues r.die (relation.holds · target) repetition r.rolls
  let after : Roll :=
    { r with rolls := result.kept, discards := r.discards ++ result.rejected }
  match result.outcome with
  | .error e => return (.error e, after)
  | .ok () => return (.ok (), after.sorted)

end Roll

end DiceNotation
