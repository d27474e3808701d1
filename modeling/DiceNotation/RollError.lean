import DiceNotation.Token.ParseError
import DiceNotation.Value

/-!
# Why an expression has no value

The causes of failure, the kind each of them belongs to, and their wording.
-/

namespace DiceNotation

/-- What an operator asks of an operand. -/
inductive Expected where
  | number | roll | integer | die
deriving DecidableEq, Repr

inductive RollError where
  | parse (e : ParseError)
  | arithmetic (e : ArithmeticError)
  | tooManyRolls
  | missingOperand (op : Operator) (side : Side)
  | wrongOperand (op : Operator) (expected : Expected) (found : Value)
  | negativeCount (op : Operator) (n : Int64)
  | noSuchDie (sides : Int64)
  | tooManyFaces (count : Nat)
  | endlessReroll (die : Die)
  | nothingToDiscard (index length : Nat)
  | nothingToReplace (index length : Nat)
  | cannotJoin (op : Operator)
  | notAnExpression (x : Number)

/-- Kinds of failure: a value out of range, an operand of the wrong shape, an input that is no
expression, an exhausted budget, a text that cannot be read. -/
inductive ErrorKind where
  | value | type | inputType | tooManyRolls | parse
deriving DecidableEq, Repr

namespace ArithmeticError

def kind : ArithmeticError → ErrorKind
  | factorialOfFraction _ => .type
  | _ => .value

def message : ArithmeticError → String
  | divisionByZero => "cannot divide by zero"
  | modulusByZero => "cannot take modulus by zero"
  | zeroToNegativePower => "cannot raise zero to a negative power"
  | factorialOfFraction x => "cannot take the factorial of " ++ floatText x
  | factorialOfNegative n =>
    "cannot take the factorial of a negative number (" ++ toString n.toInt ++ ")"
  | factorialTooLarge n => "factorial argument " ++ toString n.toInt ++ " is too large"

end ArithmeticError

namespace Expected

def text : Expected → String
  | number => "a number"
  | roll => "a roll"
  | integer => "an integer"
  | die => "a number of sides or a face list"

end Expected

namespace RollError

def kind : RollError → ErrorKind
  | parse _ => .parse
  | arithmetic e => e.kind
  | tooManyRolls => .tooManyRolls
  | missingOperand .. | wrongOperand .. => .type
  | cannotJoin _ | notAnExpression _ => .inputType
  | negativeCount .. | noSuchDie _ | tooManyFaces _ | endlessReroll _
  | nothingToDiscard .. | nothingToReplace .. => .value

private def inQuotes (op : Operator) : String := "'" ++ op.symbol ++ "'"

def message : RollError → String
  | parse e => e.message
  | arithmetic e => e.message
  | tooManyRolls => "too many dice rolled"
  | missingOperand op side =>
    inQuotes op ++ " is missing its " ++
      (match side with | .left => "left" | .right => "right") ++ " operand"
  | wrongOperand op expected found =>
    inQuotes op ++ " expected " ++ expected.text ++ ", found " ++ found.kindText ++
      " (" ++ found.text ++ ")"
  | negativeCount op n =>
    inQuotes op ++ " cannot " ++ (if op.isDice then "roll" else "keep") ++ " " ++
      toString n.toInt ++ " dice"
  | noSuchDie n => "cannot roll a die with " ++ toString n.toInt ++ " sides"
  | tooManyFaces n => "cannot roll a die with " ++ toString n ++ " faces"
  | endlessReroll die => "every face of " ++ die.text ++ " would be rerolled forever"
  | nothingToDiscard i n => "cannot discard roll " ++ toString i ++ " of " ++ toString n
  | nothingToReplace i n => "cannot replace roll " ++ toString i ++ " of " ++ toString n
  | cannotJoin op =>
    "expression trees can only be joined with '+' or '-', not " ++ inQuotes op
  | notAnExpression x => "expected an expression, found the number " ++ x.text

end RollError

end DiceNotation
