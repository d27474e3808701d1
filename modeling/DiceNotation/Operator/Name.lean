import DiceNotation.Operator.Basic
import DiceNotation.Text.Quoted

/-!
# Operators by name

Looking an operator up by its code or alias, with an error that quotes an unknown name.
-/

namespace DiceNotation

/-- A name that no operator has. -/
structure UnknownOperator where
  name : String
deriving DecidableEq, Repr

namespace UnknownOperator

def message (e : UnknownOperator) : String := "unknown operator " ++ Text.quoted e.name.toList

end UnknownOperator

/-- The operator with a given code or alias. -/
def Operator.ofName (s : String) : Except UnknownOperator Operator :=
  match ofCode? s with
  | some op => .ok op
  | none => .error ⟨s⟩

theorem Operator.ofName_code (op : Operator) : ofName op.code = .ok op := by
  simp only [ofName, ofCode?_code]

end DiceNotation
