import DiceNotation.Text.Quoted
import DiceNotation.Token.Basic

/-!
# Why a text is no expression

A text is refused at the first piece that is no token, with the piece and its place in bytes; a
sequence of tokens is refused at a token, which is named by its index.
-/

namespace DiceNotation

/-- How deeply an expression may nest. -/
def maxDepth : Nat := 256

/-- A piece of a text and where it stands, in bytes. -/
structure Excerpt where
  start : Nat
  stop : Nat
  text : List Char
deriving DecidableEq, Repr

inductive ParseError where
  | unrecognized (piece : Excerpt)
  | invalidFaces (piece : Excerpt)
  | unclosedFaces (piece : Excerpt)
  | misplacedFudge (piece : Excerpt)
  | unexpectedToken (index : Nat) (found : Token)
  | missingOperand (index : Nat) (op : Operator)
  | unmatchedClose (index : Nat)
  | unclosedParen (index : Nat)
  | emptyGroup (index : Nat)
  | tooDeep (index : Nat)
  | danglingOperands (count : Nat)

namespace ParseError

/-- The piece of the text that is no token, if the text could not be cut into tokens. -/
def piece? : ParseError → Option Excerpt
  | unrecognized piece | invalidFaces piece | unclosedFaces piece | misplacedFudge piece =>
    some piece
  | _ => none

/-- The token at which a sequence of tokens is refused. -/
def index? : ParseError → Option Nat
  | unexpectedToken i _ | missingOperand i _ | unmatchedClose i | unclosedParen i
  | emptyGroup i | tooDeep i => some i
  | _ => none

private def atPosition (piece : Excerpt) (what : String) : String :=
  "(at position " ++ toString piece.start ++ "): " ++ what

private def atToken (index : Nat) (what : String) : String :=
  "(at token " ++ toString index ++ "): " ++ what

def message : ParseError → String
  | unrecognized p => atPosition p ("unrecognized input " ++ Text.quoted p.text)
  | invalidFaces p => atPosition p (Text.quoted p.text ++ " is not a list of numbers")
  | unclosedFaces p => atPosition p ("face list " ++ Text.quoted p.text ++ " is never closed")
  | misplacedFudge p => atPosition p "'F' can only be rolled, as in '4dF'"
  | unexpectedToken i found => atToken i ("unexpected " ++ found.text)
  | missingOperand i op => atToken i ("'" ++ op.symbol ++ "' is missing an operand")
  | unmatchedClose i => atToken i "')' has no matching '('"
  | unclosedParen i => atToken i "'(' is never closed"
  | emptyGroup i => atToken i "empty parentheses"
  | tooDeep i =>
    atToken i ("expression nests deeper than " ++ toString maxDepth ++ " levels")
  | danglingOperands n => "expected one expression, found " ++ toString n

end ParseError

end DiceNotation
