import DiceNotation.Roll.Basic

/-!
# Values

What a part of an expression evaluates to: a number, a roll, or a list of faces. Every value
collapses to one number.
-/

namespace DiceNotation

inductive Value where
  | number (x : Number)
  | roll (r : Roll)
  | faces (f : Faces)

namespace Value

instance : BEq Value where
  beq
    | number x, number y => x == y
    | roll r, roll s => r == s
    | faces f, faces g => f == g
    | _, _ => false

/-- Sums whatever the value contains. -/
def collapse : Value → Number
  | number x => x
  | roll r => r.sum
  | faces f => f.sum

def roll? : Value → Option Roll
  | roll r => some r
  | _ => none

/-- Sums a roll; other values stay as they are. -/
def summed : Value → Value
  | roll r => number r.sum
  | v => v

/-- What kind of value it is, with an article. -/
def kindText : Value → String
  | number (.int _) => "an integer"
  | number (.float _) => "a fractional number"
  | roll _ => "a roll"
  | faces _ => "a face list"

def text : Value → String
  | number x => x.text
  | roll r => r.text
  | faces f => f.text

instance : ToString Value := ⟨text⟩

@[simp] theorem collapse_summed (v : Value) : v.summed.collapse = v.collapse := by
  cases v <;> rfl

end Value

end DiceNotation
