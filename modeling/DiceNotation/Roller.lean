import DiceNotation.Die.Basic

/-!
# Rollers

A roller is a source of die outcomes that changes with every roll. `Script` plays back fixed
draws and goes on with a constant or a linear congruential generator; `Recorded` keeps the
record of all that another roller was asked for.
-/

namespace DiceNotation

theorem length_run_mapM {σ α β : Type} (f : α → StateM σ β) (xs : List α) (s : σ) :
    ((xs.mapM f).run s).1.length = xs.length := by
  induction xs generalizing s with
  | nil => rfl
  | cons x xs ih =>
    rw [List.mapM_cons]
    exact congrArg (· + 1) (ih _)

/-- Sources of die outcomes. A roll of a die with `n` sides should be between 1 and `n`. Many dice
with equal sides are rolled one after the other, unless a roller has another way to do it; there
are always as many as it was asked for. -/
class Roller (ρ : Type) where
  roll : Sides → StateM ρ UInt32
  rollMany (n : Nat) (sides : Sides) : StateM ρ (List UInt32) := (List.replicate n sides).mapM roll
  length_rollMany (n : Nat) (sides : Sides) (r : ρ) : ((rollMany n sides).run r).1.length = n := by
    intro n sides r
    exact (length_run_mapM _ _ r).trans List.length_replicate

/-! ## Scripted rollers -/

/-- What a script goes on with after its last draw. -/
inductive Continuation where
  | constant (draw : Nat)
  | congruential (state : UInt64)
deriving DecidableEq, Repr

/-- Fixed draws, counted from one, that are played back in order. -/
structure Script where
  draws : List Nat
  continuation : Continuation
deriving DecidableEq, Repr

namespace Script

/-- The multiplier and increment of the congruential generator. -/
def step (state : UInt64) : UInt64 := state * 6364136223846793005 + 1442695040888963407

/-- The next draw, whatever die it is for. -/
def next : Script → Nat × Script
  | ⟨x :: draws, continuation⟩ => (x, ⟨draws, continuation⟩)
  | ⟨[], .constant x⟩ => (x, ⟨[], .constant x⟩)
  | ⟨[], .congruential state⟩ =>
    (((step state) >>> 33).toNat + 1, ⟨[], .congruential (step state)⟩)

/-- A script that draws from the congruential generator alone. -/
def seeded (seed : UInt64) : Script := ⟨[], .congruential seed⟩

/-- Draws are taken modulo the number of sides, so that one script feeds any die. -/
instance : Roller Script where
  roll sides script :=
    (UInt32.ofNat ((script.next.1 - 1) % sides.count + 1), script.next.2)

end Script

/-! ## Recorded rollers -/

/-- A roller with the record of its rolls, the last one first. -/
structure Recorded (ρ : Type) where
  roller : ρ
  record : List (Sides × UInt32)

namespace Recorded

variable {ρ : Type} [Roller ρ]

/-- Begins a record. -/
def start (roller : ρ) : Recorded ρ := ⟨roller, []⟩

/-- How often the roller was asked. -/
def drawn (r : Recorded ρ) : Nat := r.record.length

instance : Roller (Recorded ρ) where
  roll sides r :=
    let (x, roller) := Roller.roll sides r.roller
    (x, ⟨roller, (sides, x) :: r.record⟩)
  rollMany n sides r :=
    let (xs, roller) := Roller.rollMany n sides r.roller
    (xs, ⟨roller, (xs.map fun x => (sides, x)).reverse ++ r.record⟩)
  length_rollMany n sides r := Roller.length_rollMany n sides r.roller

end Recorded

end DiceNotation
