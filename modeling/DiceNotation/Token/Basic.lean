import DiceNotation.Die.Faces
import DiceNotation.Operator.Basic

/-!
# Tokens

The units of an expression. Signs and binary `+` and `-` are different tokens that look alike.
-/

namespace DiceNotation

inductive Token where
  | int (n : Int64)
  | faces (f : Faces)
  | op (o : Operator)
  | opened
  | closed

namespace Token

def text : Token → String
  | int n => toString n.toInt
  | faces f => f.text
  | op o => o.symbol
  | opened => "("
  | closed => ")"

instance : ToString Token := ⟨text⟩

/-- Whether a `+` or `-` after `previous` is a sign: at the beginning, after `(`, and after any
operator that still waits for its right operand. -/
def isSignPosition (previous : Option Token) : Bool :=
  match previous with
  | none | some opened => true
  | some (op o) => o.arity != .after
  | some _ => false

/-- Whether the token rolls what follows it. -/
def isDice : Token → Bool
  | op o => o.isDice
  | _ => false

end Token

end DiceNotation
