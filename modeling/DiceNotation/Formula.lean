import DiceNotation.Expr.Evaluation
import DiceNotation.Expr.Reading
import DiceNotation.Expr.Written
import DiceNotation.Mode
import DiceNotation.Token.Reading

/-!
# Formulas

A formula is an expression or nothing at all, which counts as zero. Formulas are read from
text, joined, rewritten for a mode and evaluated to a number.
-/

namespace DiceNotation

structure Formula where
  root : Option Expr

namespace Formula

/-- The formula without any token. -/
def empty : Formula := ⟨none⟩

instance : Inhabited Formula := ⟨empty⟩

def isEmpty (f : Formula) : Bool := f.root.isNone

/-! ## Reading and writing -/

def ofTokens (ts : List Token) : Except ParseError Formula := (Expr.ofTokens ts).map Formula.mk

def ofText (cs : List Char) : Except ParseError Formula := do ofTokens (← Token.ofText cs)

/-- The tokens in written order. -/
def tokens (f : Formula) : List Token := (f.root.map Expr.tokens).getD []

def text (f : Formula) : String := (f.root.map Expr.text).getD ""

instance : ToString Formula := ⟨text⟩

/-- The text with every evaluated roll shown by its outcome. -/
def breakdown (f : Formula) : String := (f.root.map Expr.breakdown).getD ""

/-- All nodes with what they remember, each before its operands. -/
def nodes (f : Formula) : List (Token × Option Value) := (f.root.map Expr.nodes).getD []

/-- Formulas are equal if their shapes and literals are, whatever they remember. -/
instance : BEq Formula where
  beq f g :=
    match f.root, g.root with
    | none, none => true
    | some x, some y => x.sameAs y
    | _, _ => false

/-! ## Parts -/

/-- The value that the root remembers. -/
def memory (f : Formula) : Option Value := f.root.bind Expr.memory

/-- The operand on one side of the root as a formula. -/
def part (f : Formula) (side : Side) : Formula := ⟨f.root.bind (·.operand? side)⟩

/-! ## Forgetting and rewriting -/

/-- Forgets every remembered value. -/
def clear (f : Formula) : Formula := ⟨f.root.map Expr.clear⟩

/-- Turns `d` into `da`. -/
def averageify (f : Formula) : Formula := ⟨f.root.map Expr.averageify⟩

/-- Turns `d` and `da` into `dc`. -/
def critify (f : Formula) : Formula := ⟨f.root.map Expr.critify⟩

/-- Turns every dice operator into `dm`. -/
def maxify (f : Formula) : Formula := ⟨f.root.map Expr.maxify⟩

def applyMode (m : Mode) (f : Formula) : Formula := ⟨f.root.map (Expr.applyMode m)⟩

/-! ## Joining -/

/-- The root of a formula; an empty one is zero. -/
def rootOrZero (f : Formula) : Expr := f.root.getD (.int 0)

/-- Puts two formulas under one operator. -/
def joined (a : Arithmetic) (f g : Formula) : Formula :=
  ⟨some (.binary none (.arithmetic a) f.rootOrZero g.rootOrZero)⟩

/-- The sum of copies of two formulas. -/
instance : Add Formula := ⟨joined .plus⟩

/-- The difference of copies of two formulas. -/
instance : Sub Formula := ⟨joined .minus⟩

/-- Formulas are put under an addition or a subtraction only. -/
def joiner : Operator → Except RollError Arithmetic
  | .binary (.arithmetic .plus) => .ok .plus
  | .binary (.arithmetic .minus) => .ok .minus
  | op => .error (.cannotJoin op)

/-- Puts copies of two formulas under an operator, if it is one that joins. -/
def concat (f g : Formula) (op : Operator) : Except RollError Formula := do
  return joined (← joiner op) f g

/-! ### Joining in place -/

/-- Takes all nodes out of a formula, which is left empty. -/
def take : StateM Formula Formula := modifyGet fun f => (f, empty)

/-- A step of the first of two formulas. -/
def onFirst {α : Type} (step : StateM Formula α) : StateM (Formula × Formula) α :=
  modifyGet fun (f, g) =>
    let (a, f) := step f
    (a, (f, g))

/-- A step of the second of two formulas. -/
def onSecond {α : Type} (step : StateM Formula α) : StateM (Formula × Formula) α :=
  modifyGet fun (f, g) =>
    let (a, g) := step g
    (a, (f, g))

/-- The sum or the difference of two formulas that are used up by it. -/
def joinTaken (a : Arithmetic) : StateM (Formula × Formula) Formula := do
  let f ← onFirst take
  let g ← onSecond take
  return joined a f g

/-- Adds or subtracts a formula in place. -/
def assign (a : Arithmetic) (g : Formula) : StateM Formula Unit := do
  let f ← take
  set (joined a f g)

/-- Puts two formulas under an operator, if it is one that joins, in place of the first one. The
second one loses its nodes to it. -/
def concatFrom (op : Operator) : ExceptT RollError (StateM (Formula × Formula)) Unit := do
  let a ← joiner op
  let h ← joinTaken a
  modify fun (_, g) => (h, g)

theorem run_concatFrom (f g : Formula) (op : Operator) :
    (concatFrom op).run.run (f, g) =
      match joiner op with
      | .ok a => (.ok (), (joined a f g, empty))
      | .error c => (.error c, (f, g)) := by
  rw [concatFrom]
  cases joiner op <;> rfl

/-- How a modifier is written after an expression: the operator and the operand. A negative
modifier is subtracted, except the least integer, which has no opposite. -/
def modifierParts (m : Int64) : Arithmetic × Int64 :=
  if m < 0 ∧ m ≠ Int64.minValue then (.minus, -m) else (.plus, m)

/-- Adds a modifier above the root, unless it is zero. -/
def addModifier (f : Formula) (m : Int64) : Formula :=
  if m = 0 then f
  else
    let (a, amount) := modifierParts m
    joined a f ⟨some (.int amount)⟩

/-! ## Evaluation -/

/-- Evaluates a formula to a number. The budget of the context begins anew. -/
def evaluate {ρ : Type} [Roller ρ] (f : Formula) :
    StateM (Context ρ) (Except RollError Number × Formula) := do
  modify Context.reset
  match f.root with
  | none => return (.ok .zero, f)
  | some root =>
    let (result, root) ← root.evaluate
    return (result.map Value.collapse, ⟨some root⟩)

end Formula

/-! ## Natural twenties and ones -/

/-- The rolls of an evaluated expression that no roll operator above consumed. -/
def Expr.outerRolls : Expr → List Roll
  | literal m _ => (m.bind Value.roll?).toList
  | sign m _ x | factorial m x =>
    match m.bind Value.roll? with
    | some r => [r]
    | none => x.outerRolls
  | binary m _ x y =>
    match m.bind Value.roll? with
    | some r => [r]
    | none => x.outerRolls ++ y.outerRolls

namespace Formula

/-- Whether a twenty-sided die shows a value that counts. -/
def showsOnD20 (f : Formula) (x : Number) : Bool :=
  (f.root.map Expr.outerRolls).getD [] |>.any fun r =>
    r.die.isD20 && r.rolls.any (· == x)

/-- Whether a natural twenty counts. -/
def isCritical (f : Formula) : Bool := f.showsOnD20 (.int 20)

/-- Whether a natural one counts. -/
def isFail (f : Formula) : Bool := f.showsOnD20 .one

end Formula

end DiceNotation
