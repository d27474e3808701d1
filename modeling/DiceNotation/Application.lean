import DiceNotation.Roll.Reroll

/-!
# Applying operators

What an operator makes of its evaluated operands. The operands are checked from the one that
says how much to the one it is done to, and nothing is rolled before both are accepted.
-/

namespace DiceNotation

namespace Operator

/-! ## Operands -/

/-- An operand as the operator sees it. -/
def operand (op : Operator) (side : Side) (value : Option Value) : Except RollError Value :=
  match value with
  | none => .error (.missingOperand op side)
  | some v => .ok (if op.sums side then v.summed else v)

def numberOperand (op : Operator) (side : Side) (value : Option Value) :
    Except RollError Number := do
  match ← op.operand side value with
  | .number x => return x
  | other => throw (.wrongOperand op .number other)

def rollOperand (op : Operator) (side : Side) (value : Option Value) :
    Except RollError Roll := do
  match ← op.operand side value with
  | .roll r => return r
  | other => throw (.wrongOperand op .roll other)

/-- How many dice to roll or to keep. -/
def countOperand (op : Operator) (side : Side) (value : Option Value) :
    Except RollError Nat := do
  match ← op.operand side value with
  | .number (.int n) => if n.toInt < 0 then throw (.negativeCount op n) else return n.toInt.toNat
  | other => throw (.wrongOperand op .integer other)

def dieOperand (op : Operator) (side : Side) (value : Option Value) : Except RollError Die := do
  match ← op.operand side value with
  | .number (.int n) =>
    match Sides.ofInt? n.toInt with
    | some s => return .sides s
    | none => throw (.noSuchDie n)
  | .faces f => return .faces f
  | other => throw (.wrongOperand op .die other)

end Operator

/-! ## Families -/

/-- The result of a calculation on two numbers. -/
def Arithmetic.calculate (a : Arithmetic) (x y : Number) : Except ArithmeticError Number :=
  match a with
  | .power => x.power y
  | .times => .ok (x * y)
  | .dividedBy => x.divide y
  | .modulo => x.modulo y
  | .minus => .ok (x - y)
  | .plus => .ok (x + y)

def Test.decide (t : Test) (x y : Number) : Bool :=
  match t with
  | .greater => y.lt x
  | .atLeast => y.le x
  | .less => x.lt y
  | .atMost => x.le y
  | .equal => x == y
  | .or => x.isTruthy || y.isTruthy
  | .and => x.isTruthy && y.isTruthy

section Rolling

variable {ρ : Type} [Roller ρ]

/-- Rolls a number of dice in one of the four ways. -/
def DiceKind.roll (kind : DiceKind) (n : Nat) (die : Die) : RollM ρ Roll :=
  let allAt (face : Number) : RollM ρ Roll := do
    RollM.count n
    return Roll.of (List.replicate n face) die
  match kind with
  | .plain => RollM.rollDice n die
  | .critical => RollM.rollDice (2 * n) die
  | .average => allAt die.mean
  | .maximum => allAt die.max

/-- Rerolls as part of an expression, where only a success has a result. -/
def Roll.rerolled (r : Roll) (relation : Relation) (target : Number) (repetition : Repetition) :
    RollM ρ Roll := do
  let (outcome, after) ← (r.reroll relation target repetition : StateM (Context ρ) _)
  outcome
  return after

def Modifier.apply (m : Modifier) (left right : Option Value) : RollM ρ Roll := do
  let op : Operator := .binary (.modifier m)
  match m with
  | .keepHigh =>
    let n ← op.countOperand .right right
    return (← op.rollOperand .left left).keepHigh n
  | .keepLow =>
    let n ← op.countOperand .right right
    return (← op.rollOperand .left left).keepLow n
  | .floor =>
    let bound ← op.numberOperand .right right
    return (← op.rollOperand .left left).floor bound
  | .ceiling =>
    let bound ← op.numberOperand .right right
    return (← op.rollOperand .left left).ceiling bound
  | .reroll relation repetition =>
    let target ← op.numberOperand .right right
    (← op.rollOperand .left left).rerolled relation target repetition
  | .countAtLeast =>
    let target ← op.numberOperand .right right
    return (← op.rollOperand .left left).countAtLeast target
  | .countAtMost =>
    let target ← op.numberOperand .right right
    return (← op.rollOperand .left left).countAtMost target

end Rolling

/-- The outcome of arithmetic as the outcome of an expression. -/
def ofArithmetic (result : Except ArithmeticError Number) : Except RollError Value :=
  match result with
  | .error e => .error (.arithmetic e)
  | .ok x => .ok (.number x)

namespace BinaryOperator

variable {ρ : Type} [Roller ρ]

def apply (b : BinaryOperator) (left right : Option Value) : RollM ρ Value := do
  let op : Operator := .binary b
  match b with
  | .dice kind =>
    let n ← op.countOperand .left left
    let die ← op.dieOperand .right right
    return .roll (← kind.roll n die)
  | .modifier m => return .roll (← m.apply left right)
  | .arithmetic a =>
    let x ← op.numberOperand .left left
    let y ← op.numberOperand .right right
    ofArithmetic (a.calculate x y)
  | .test t =>
    let x ← op.numberOperand .left left
    let y ← op.numberOperand .right right
    return .number (Number.ofBool (t.decide x y))

end BinaryOperator

namespace Operator

variable {ρ : Type} [Roller ρ]

/-- Applies an operator to evaluated operands. A sign looks only to its right, the factorial
only to its left. -/
def apply (op : Operator) (left right : Option Value) : RollM ρ Value := do
  match op with
  | sign s =>
    let x ← op.numberOperand .right right
    return .number (match s with | .minus => -x | .plus => x)
  | factorial =>
    let x ← op.numberOperand .left left
    ofArithmetic x.factorial
  | binary b => b.apply left right

end Operator

end DiceNotation
