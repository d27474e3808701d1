import DiceNotation.Expr.Basic

/-!
# Writing expressions

An expression is written with parentheses only where precedence and grouping alone would give
another tree. It is written either as tokens, or as a text in which some nodes may be shown as
something else.
-/

namespace DiceNotation

/-- Whether an operand with the given operator at its root is parenthesized beside `op`. -/
def Operator.encloses (op : Operator) (side : Side) (operand : Option Operator) : Bool :=
  match operand with
  | none => false
  | some inner =>
    if op.arity = .between ∧ inner.precedence = op.precedence then op.grouping != side
    else inner.precedence < op.precedence

namespace Expr

/-- Puts parentheses around the tokens of an operand where they are needed. -/
def enclose (op : Operator) (side : Side) (operand : Expr) (tokens : List Token) : List Token :=
  if op.encloses side operand.op? then .opened :: tokens ++ [.closed] else tokens

/-- The tokens of an expression in written order. -/
def tokens : Expr → List Token
  | literal _ l => [l.toToken]
  | sign _ s x => .op (.sign s) :: enclose (.sign s) .right x x.tokens
  | factorial _ x => enclose .factorial .left x x.tokens ++ [.op .factorial]
  | binary _ b x y =>
    enclose b .left x x.tokens ++ .op b :: enclose b .right y y.tokens

/-! ## Text -/

/-- Whether the operand is shown as the fudge die `F`: on the right of a dice operator. -/
def isFudgeDie (op : Operator) (side : Side) : Expr → Bool
  | literal _ l => op.isDice && side == .right && l.isFudge
  | _ => false

/-- The text of an operand, given its text as an expression of its own. Nodes that `atom` shows
are never parenthesized. -/
def operandText (atom : Expr → Option String) (op : Operator) (side : Side) (operand : Expr)
    (text : String) : String :=
  if (atom operand).isSome then text
  else if isFudgeDie op side operand then "F"
  else if op.encloses side operand.op? then "(" ++ text ++ ")"
  else text

/-- The text of an expression, with the nodes for which `atom` has a text shown by that. -/
def render (atom : Expr → Option String) (e : Expr) : String :=
  (atom e).getD <|
    match e with
    | literal _ l => l.text
    | sign _ s x => (Operator.sign s).symbol ++ operandText atom (.sign s) .right x (x.render atom)
    | factorial _ x =>
      operandText atom .factorial .left x (x.render atom) ++ Operator.factorial.symbol
    | binary _ b x y =>
      operandText atom b .left x (x.render atom) ++ (Operator.binary b).symbol ++
        operandText atom b .right y (y.render atom)

/-- The text of an expression. -/
def text (e : Expr) : String := e.render fun _ => none

/-- A node that rolls dice or reworks a roll is shown by the value that it remembers. -/
def outcome? (e : Expr) : Option String :=
  if e.op?.any (modifierPrecedence ≤ ·.precedence) then e.memory.map Value.text else none

/-- The text of an evaluated expression, with every roll shown by its outcome. -/
def breakdown (e : Expr) : String := e.render outcome?

end Expr

end DiceNotation
