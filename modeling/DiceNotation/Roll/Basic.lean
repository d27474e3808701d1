import DiceNotation.Die.Basic
import DiceNotation.Number.Sorting

/-!
# Rolls

The outcome of a dice operator: the values that count, and everything that later operators
removed or replaced.
-/

namespace DiceNotation

structure Roll where
  rolls : List Number
  discards : List Number
  die : Die

namespace Roll

instance : BEq Roll where
  beq a b := a.rolls == b.rolls && a.discards == b.discards && a.die == b.die

/-- A fresh roll of the given values, in ascending order. -/
def of (values : List Number) (die : Die) : Roll := ⟨Number.sort values, [], die⟩

def length (r : Roll) : Nat := r.rolls.length

def sum (r : Roll) : Number := Number.sum r.rolls

/-- Puts the values that count into ascending order. -/
def sorted (r : Roll) : Roll := { r with rolls := Number.sort r.rolls }

/-- As in `[d20: 20; (1)]`: the die, the values, and the discards if there are any. -/
def text (r : Roll) : String :=
  let discards := if r.discards.isEmpty then "" else "; (" ++ Number.listText r.discards ++ ")"
  "[" ++ r.die.text ++ ": " ++ Number.listText r.rolls ++ discards ++ "]"

instance : ToString Roll := ⟨text⟩

@[simp] theorem discards_of (values : List Number) (die : Die) : (of values die).discards = [] :=
  rfl

theorem perm_rolls_of (values : List Number) (die : Die) : (of values die).rolls.Perm values :=
  Number.perm_sort values

@[simp] theorem length_of (values : List Number) (die : Die) :
    (of values die).length = values.length :=
  (perm_rolls_of values die).length_eq

end Roll

end DiceNotation
