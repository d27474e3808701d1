import DiceNotation.Die.Faces

/-!
# Dice

A die has either a number of sides, numbered from one, or a list of faces.
-/

namespace DiceNotation

/-- A number of sides: positive, and within 32 bits. -/
structure Sides where
  count : Nat
  count_pos : 0 < count
  count_lt : count < UInt32.size
deriving DecidableEq

namespace Sides

def ofInt? (n : Int) : Option Sides :=
  if h : 0 < n ∧ n < UInt32.size then some ⟨n.toNat, by omega, by omega⟩ else none

/-- The number of sides as a number. -/
def toNumber (s : Sides) : Number := .int (Int64.ofNat s.count)

theorem ofInt?_eq_some_iff {n : Int} {s : Sides} : ofInt? n = some s ↔ n = s.count := by
  obtain ⟨k, hpos, hlt⟩ := s
  unfold ofInt?
  split
  · simp only [Option.some.injEq, mk.injEq]
    omega
  · simp only [reduceCtorEq, false_iff]
    omega

end Sides

inductive Die where
  | sides (s : Sides)
  | faces (f : Faces)

namespace Die

instance : BEq Die where
  beq
    | .sides a, .sides b => a == b
    | .faces a, .faces b => a == b
    | _, _ => false

/-- The greatest value the die can show. -/
def max : Die → Number
  | .sides s => s.toNumber
  | .faces f => f.max

/-- The mean of what the die can show, always a float. -/
def mean : Die → Number
  | .sides s => .float ((Float.ofNat s.count + 1) / 2)
  | .faces f => f.mean

def isD20 : Die → Bool
  | .sides s => s.count == 20
  | .faces _ => false

def text : Die → String
  | .sides s => "d" ++ toString s.count
  | .faces f => if f.isFudge then "dF" else "d" ++ f.text

instance : ToString Die := ⟨text⟩

end Die

end DiceNotation
