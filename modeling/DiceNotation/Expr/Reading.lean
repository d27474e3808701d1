import DiceNotation.Expr.Basic
import DiceNotation.Token.ParseError

/-!
# Reading expressions

Tokens are read from left to right with two stacks: one of operands that are complete, each
with its depth, and one of operators and groups that are not. An operator is reduced, that is
takes its operands, as soon as the next operator does not bind tighter.
-/

namespace DiceNotation

/-- What still waits for operands or a closing parenthesis, with the index of its token. -/
inductive Pending where
  | op (o : Operator) (index : Nat)
  | group (index : Nat)
deriving DecidableEq, Repr

/-- A complete operand and its depth. -/
structure Operand where
  expr : Expr
  depth : Nat

/-- The state of reading; the tops of the stacks come first. -/
structure Reader where
  pending : List Pending
  operands : List Operand
  expectsOperand : Bool

namespace Reader

def start : Reader := ⟨[], [], true⟩

/-- Checks the depth of an operand before it is wrapped into one more level. -/
def deepen (index : Nat) (expr : Expr) (depth : Nat) (rest : List Operand) :
    Except ParseError (List Operand) :=
  if maxDepth ≤ depth then .error (.tooDeep index) else .ok (⟨expr, depth + 1⟩ :: rest)

/-- Lets an operator take its operands from the stack. -/
def reduce (op : Operator) (index : Nat) (operands : List Operand) :
    Except ParseError (List Operand) :=
  match op, operands with
  | .sign s, x :: rest => deepen index (.sign none s x.expr) x.depth rest
  | .factorial, x :: rest => deepen index (.factorial none x.expr) x.depth rest
  | .binary b, y :: x :: rest =>
    deepen index (.binary none b x.expr y.expr) (max x.depth y.depth) rest
  | _, _ => .error (.missingOperand index op)

/-- Reduces the waiting operators that come before `next`. -/
def reduceBefore (next : Operator) :
    List Pending → List Operand → Except ParseError (List Pending × List Operand)
  | .op o index :: pending, operands =>
    if o.reducesBefore next then
      match reduce o index operands with
      | .error e => .error e
      | .ok operands => reduceBefore next pending operands
    else .ok (.op o index :: pending, operands)
  | pending, operands => .ok (pending, operands)

/-- Reduces the operators of the innermost group, which ends at the token with an index. -/
def reduceGroup (index : Nat) :
    List Pending → List Operand → Except ParseError (List Pending × List Operand)
  | [], _ => .error (.unmatchedClose index)
  | .group _ :: pending, operands => .ok (pending, operands)
  | .op o i :: pending, operands =>
    match reduce o i operands with
    | .error e => .error e
    | .ok operands => reduceGroup index pending operands

/-- Reduces everything that is left at the end. -/
def reduceAll : List Pending → List Operand → Except ParseError (List Operand)
  | [], operands => .ok operands
  | .group i :: _, _ => .error (.unclosedParen i)
  | .op o i :: pending, operands =>
    match reduce o i operands with
    | .error e => .error e
    | .ok operands => reduceAll pending operands

/-- Reads a literal where an operand may stand. -/
def pushLiteral (r : Reader) (l : Literal) : Reader :=
  { r with operands := ⟨.literal none l, 1⟩ :: r.operands, expectsOperand := false }

def pushOperator (r : Reader) (index : Nat) (op : Operator) : Except ParseError Reader :=
  match op.arity, r.expectsOperand with
  | .before, true => .ok { r with pending := .op op index :: r.pending }
  | .before, false => .error (.unexpectedToken index (.op op))
  | _, true => .error (.missingOperand index op)
  | .after, false =>
    match reduceBefore op r.pending r.operands with
    | .error e => .error e
    | .ok (pending, operands) =>
      match reduce op index operands with
      | .error e => .error e
      | .ok operands => .ok { r with pending, operands }
  | .between, false =>
    match reduceBefore op r.pending r.operands with
    | .error e => .error e
    | .ok (pending, operands) => .ok ⟨.op op index :: pending, operands, true⟩

def closeGroup (r : Reader) (index : Nat) : Except ParseError Reader :=
  if r.expectsOperand then
    match r.pending with
    | .group _ :: _ => .error (.emptyGroup index)
    | .op o i :: _ => .error (.missingOperand i o)
    | [] => .error (.unmatchedClose index)
  else
    match reduceGroup index r.pending r.operands with
    | .error e => .error e
    | .ok (pending, operands) => .ok { r with pending, operands }

/-- Reads the token with an index. -/
def push (r : Reader) (index : Nat) (t : Token) : Except ParseError Reader :=
  match t with
  | .int n =>
    if r.expectsOperand then .ok (r.pushLiteral (.int n)) else .error (.unexpectedToken index t)
  | .faces f =>
    if r.expectsOperand then .ok (r.pushLiteral (.faces f))
    else .error (.unexpectedToken index t)
  | .opened =>
    if r.expectsOperand then .ok { r with pending := .group index :: r.pending }
    else .error (.unexpectedToken index t)
  | .closed => r.closeGroup index
  | .op o => r.pushOperator index o

/-- Reads tokens of which the first has an index. -/
def pushAll (r : Reader) (index : Nat) : List Token → Except ParseError Reader
  | [] => .ok r
  | t :: ts =>
    match r.push index t with
    | .error e => .error e
    | .ok r => r.pushAll (index + 1) ts

/-- The expression that was read, or none if there was no token at all. -/
def finish (r : Reader) : Except ParseError (Option Expr) :=
  match r.expectsOperand, r.pending with
  | true, .group i :: _ => .error (.unclosedParen i)
  | true, .op o i :: _ => .error (.missingOperand i o)
  | _, pending =>
    match reduceAll pending r.operands with
    | .error e => .error e
    | .ok [] => .ok none
    | .ok [x] => .ok (some x.expr)
    | .ok operands => .error (.danglingOperands operands.length)

end Reader

/-- The expression of a sequence of tokens; none for no tokens. -/
def Expr.ofTokens (ts : List Token) : Except ParseError (Option Expr) :=
  match Reader.start.pushAll 0 ts with
  | .error e => .error e
  | .ok r => r.finish

end DiceNotation
