import DiceNotation.RollError
import DiceNotation.Roller

/-!
# Rolling within a budget

A context holds a roller, how many dice may be rolled, and how many were rolled since the last
reset. Dice are counted before they are rolled, and the count keeps what failed requests asked
for.
-/

namespace DiceNotation

/-- A roller and a budget of dice, unbounded if there is no limit. -/
structure Context (ρ : Type) where
  limit : Option Nat
  rolled : Nat
  roller : ρ

/-- A computation that may roll dice and may fail; a failure does not take rolls back. -/
abbrev RollM (ρ : Type) := ExceptT RollError (StateM (Context ρ))

/-- The count of dice stops at the greatest 64-bit number. -/
def maxCount : Nat := UInt64.size - 1

/-- The budget of an evaluation unless it is told otherwise. -/
def defaultBudget : Nat := 10000

namespace Context

/-- A context in which nothing was rolled yet. -/
def start {ρ : Type} (limit : Option Nat) (roller : ρ) : Context ρ := ⟨limit, 0, roller⟩

variable {ρ : Type}

def reset (ctx : Context ρ) : Context ρ := { ctx with rolled := 0 }

/-- Counts more dice. -/
def charge (ctx : Context ρ) (n : Nat) : Context ρ :=
  { ctx with rolled := min (ctx.rolled + n) maxCount }

/-- Whether more dice were counted than the budget allows. -/
def isExhausted (ctx : Context ρ) : Bool := ctx.limit.any (· < ctx.rolled)

end Context

namespace Die

/-- The sides of the die that is rolled to choose a value of this die. -/
def rolledSides : Die → Except RollError Sides
  | sides s => .ok s
  | faces f =>
    match Sides.ofInt? f.length with
    | some s => .ok s
    | none => .error (.tooManyFaces f.length)

/-- The value that the die shows on a side. -/
def shown (die : Die) (side : UInt32) : Number :=
  match die with
  | sides _ => .int (Int64.ofNat side.toNat)
  | faces f => f.get side.toNat

end Die

namespace RollM

variable {ρ : Type}

/-- Counts dice against the budget. -/
def count (n : Nat) : RollM ρ Unit := do
  modify fun ctx => ctx.charge n
  if (← get).isExhausted then throw .tooManyRolls

/-- Runs an action on the roller of the context. -/
def onRoller {α : Type} (action : StateM ρ α) : RollM ρ α :=
  modifyGet fun ctx =>
    let (a, roller) := action ctx.roller
    (a, { ctx with roller })

variable [Roller ρ]

/-- Rolls one die. -/
def rollDie (die : Die) : RollM ρ Number := do
  count 1
  let sides ← die.rolledSides
  return die.shown (← onRoller (Roller.roll sides))

/-- Rolls a number of equal dice. -/
def rollDice (n : Nat) (die : Die) : RollM ρ Roll := do
  count n
  let sides ← die.rolledSides
  let draws ← onRoller (Roller.rollMany n sides)
  return Roll.of (draws.map die.shown) die

end RollM

end DiceNotation
