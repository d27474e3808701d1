/-!
# Operators

The operators of the notation, grouped by what they do to a roll: signs and the factorial take
one operand, all others two. An operator has a code, which is unique, a precedence, and the
spelling it is shown with.

* `ofCode?_code`: the code determines the operator.
-/

namespace DiceNotation

/-! ## Families of operators -/

inductive Sign where
  | minus | plus
deriving DecidableEq, Repr

/-- The ways to roll a number of dice, each ranked above the ones before it: as they fall, all
at their mean, twice as many, all at their greatest value. -/
inductive DiceKind where
  | plain | average | critical | maximum
deriving DecidableEq, Repr

/-- How a value has to stand to a target to match it. -/
inductive Relation where
  | equal | lower | higher
deriving DecidableEq, Repr

inductive Repetition where
  | once | always
deriving DecidableEq, Repr

/-- Operators that rework a roll. -/
inductive Modifier where
  | keepHigh | keepLow
  | floor | ceiling
  | reroll (relation : Relation) (repetition : Repetition)
  | countAtLeast | countAtMost
deriving DecidableEq, Repr

inductive Arithmetic where
  | power | times | dividedBy | modulo | minus | plus
deriving DecidableEq, Repr

/-- Operators whose result is a truth value. -/
inductive Test where
  | greater | atLeast | less | atMost | equal | or | and
deriving DecidableEq, Repr

inductive BinaryOperator where
  | dice (kind : DiceKind)
  | modifier (m : Modifier)
  | arithmetic (a : Arithmetic)
  | test (t : Test)
deriving DecidableEq, Repr

inductive Operator where
  | sign (s : Sign)
  | factorial
  | binary (b : BinaryOperator)
deriving DecidableEq, Repr

/-- Where an operator stands beside its operands. -/
inductive Arity where
  | before | after | between
deriving DecidableEq, Repr

/-- The side of an operand, or the side from which equal operators group. -/
inductive Side where
  | left | right
deriving DecidableEq, Repr

namespace DiceKind

def code : DiceKind → String
  | plain => "d"
  | average => "da"
  | critical => "dc"
  | maximum => "dm"

end DiceKind

namespace Modifier

def code : Modifier → String
  | keepHigh => "h"
  | keepLow => "l"
  | floor => "f"
  | ceiling => "c"
  | reroll .equal .once => "r"
  | reroll .equal .always => "R"
  | reroll .lower .once => "r<"
  | reroll .lower .always => "R<"
  | reroll .higher .once => "r>"
  | reroll .higher .always => "R>"
  | countAtLeast => "t"
  | countAtMost => "T"

end Modifier

namespace Arithmetic

def code : Arithmetic → String
  | power => "^"
  | times => "*"
  | dividedBy => "/"
  | modulo => "%"
  | minus => "-"
  | plus => "+"

def precedence : Arithmetic → Nat
  | power => 5
  | times | dividedBy | modulo => 3
  | minus | plus => 2

end Arithmetic

namespace Test

def code : Test → String
  | greater => ">"
  | atLeast => ">="
  | less => "<"
  | atMost => "<="
  | equal => "="
  | or => "|"
  | and => "&"

end Test

/-! ## The table -/

/-- The precedence of the operators that roll dice. -/
def rollPrecedence : Nat := 7

/-- The precedence of the operators that rework a roll. -/
def modifierPrecedence : Nat := 6

namespace BinaryOperator

def code : BinaryOperator → String
  | dice kind => kind.code
  | modifier m => m.code
  | arithmetic a => a.code
  | test t => t.code

def precedence : BinaryOperator → Nat
  | dice _ => rollPrecedence
  | modifier _ => modifierPrecedence
  | arithmetic a => a.precedence
  | test _ => 1

/-- Whether a roll on the given side is summed before the operator sees it. -/
def sums : BinaryOperator → Side → Bool
  | dice _, side => side == .left
  | modifier _, side => side == .right
  | arithmetic _, _ | test _, _ => true

end BinaryOperator

namespace Operator

instance : Coe BinaryOperator Operator := ⟨.binary⟩

def power : Operator := .binary (.arithmetic .power)
def minus : Operator := .binary (.arithmetic .minus)
def plus : Operator := .binary (.arithmetic .plus)

/-- The unique name of an operator. -/
def code : Operator → String
  | sign .minus => "m"
  | sign .plus => "p"
  | factorial => "!"
  | binary b => b.code

/-- How an operator is written. The signs look like subtraction and addition. -/
def symbol : Operator → String
  | sign .minus => "-"
  | sign .plus => "+"
  | op => op.code

instance : ToString Operator := ⟨symbol⟩

/-- Higher binds tighter. -/
def precedence : Operator → Nat
  | sign _ => 4
  | factorial => 8
  | binary b => b.precedence

def arity : Operator → Arity
  | sign _ => .before
  | factorial => .after
  | binary _ => .between

/-- Equal operators group from the left, powers from the right. -/
def grouping (op : Operator) : Side := if op = power then .right else .left

def isDice : Operator → Bool
  | binary (.dice _) => true
  | _ => false

/-- Whether a roll on the given side is summed before the operator sees it. -/
def sums : Operator → Side → Bool
  | sign _, side => side == .right
  | factorial, side => side == .left
  | binary b, side => b.sums side

/-- Whether an operator takes its operands before `next` does. -/
def reducesBefore (op next : Operator) : Bool :=
  match next.grouping with
  | .left => next.precedence ≤ op.precedence
  | .right => next.precedence < op.precedence

/-- All operators. -/
def all : List Operator :=
  [factorial,
   binary (.dice .plain), binary (.dice .critical), binary (.dice .maximum),
   binary (.dice .average),
   binary (.modifier .keepHigh), binary (.modifier .keepLow),
   binary (.modifier .floor), binary (.modifier .ceiling),
   binary (.modifier (.reroll .equal .once)), binary (.modifier (.reroll .equal .always)),
   binary (.modifier (.reroll .lower .once)), binary (.modifier (.reroll .lower .always)),
   binary (.modifier (.reroll .higher .once)), binary (.modifier (.reroll .higher .always)),
   binary (.modifier .countAtLeast), binary (.modifier .countAtMost),
   power, sign .minus, sign .plus,
   binary (.arithmetic .times), binary (.arithmetic .dividedBy), binary (.arithmetic .modulo),
   minus, plus,
   binary (.test .greater), binary (.test .atLeast), binary (.test .less),
   binary (.test .atMost), binary (.test .equal), binary (.test .or), binary (.test .and)]

/-- Second names of operators. -/
def aliases : List (String × Operator) :=
  [("rl", binary (.modifier (.reroll .lower .once))),
   ("Rl", binary (.modifier (.reroll .lower .always))),
   ("rh", binary (.modifier (.reroll .higher .once))),
   ("Rh", binary (.modifier (.reroll .higher .always))),
   ("gt", binary (.test .greater)), ("ge", binary (.test .atLeast)),
   ("lt", binary (.test .less)), ("le", binary (.test .atMost))]

/-- The operator with a given code or alias. -/
def ofCode? (s : String) : Option Operator :=
  (all.find? fun op => op.code == s) <|> aliases.lookup s

theorem mem_all (op : Operator) : op ∈ all := by
  rcases op with s | _ | b
  · cases s <;> decide
  · decide
  · rcases b with k | m | a | t
    · cases k <;> decide
    · rcases m with _ | _ | _ | _ | ⟨c, r⟩ | _ | _
      case reroll => cases c <;> cases r <;> decide
      all_goals decide
    · cases a <;> decide
    · cases t <;> decide

theorem ofCode?_code (op : Operator) : ofCode? op.code = some op := by
  have h : ∀ op ∈ all, ofCode? op.code = some op := by decide
  exact h op (mem_all op)

end Operator

end DiceNotation
