import DiceNotation.Token.Basic
import DiceNotation.Value

/-!
# Expression trees

The tree of an expression, in which every node may remember the value it was evaluated to. The
operands of a node are those that its operator takes, so every tree is well formed.

* `depth_clear`: what a tree remembers plays no part in its depth.
-/

namespace DiceNotation

inductive Literal where
  | int (n : Int64)
  | faces (f : Faces)

/-- Expressions; `memory` is the value that a node remembers. -/
inductive Expr where
  | literal (memory : Option Value) (l : Literal)
  | sign (memory : Option Value) (s : Sign) (right : Expr)
  | factorial (memory : Option Value) (left : Expr)
  | binary (memory : Option Value) (b : BinaryOperator) (left right : Expr)

namespace Literal

instance : BEq Literal where
  beq
    | int m, int n => m == n
    | faces f, faces g => f == g
    | _, _ => false

def toToken : Literal → Token
  | int n => .int n
  | faces f => .faces f

/-- A literal evaluates to itself. -/
def toValue : Literal → Value
  | int n => .number (.int n)
  | faces f => .faces f

def text (l : Literal) : String := l.toToken.text

def isFudge : Literal → Bool
  | int _ => false
  | faces f => f.isFudge

end Literal

namespace Expr

/-! ## Nodes -/

def int (n : Int64) : Expr := literal none (.int n)

/-- What a node is, apart from its operands: its literal or operator, as a token. -/
def label : Expr → Token
  | literal _ l => l.toToken
  | sign _ s _ => .op (.sign s)
  | factorial _ _ => .op .factorial
  | binary _ b _ _ => .op (.binary b)

def op? : Expr → Option Operator
  | literal .. => none
  | sign _ s _ => some (.sign s)
  | factorial _ _ => some .factorial
  | binary _ b _ _ => some (.binary b)

/-- The value that the root remembers. -/
def memory : Expr → Option Value
  | literal m _ | sign m _ _ | factorial m _ | binary m _ _ _ => m

/-- The operands of the root, from left to right. -/
def operands : Expr → List Expr
  | literal .. => []
  | sign _ _ x | factorial _ x => [x]
  | binary _ _ x y => [x, y]

/-- The operand on one side of the root. -/
def operand? : Expr → Side → Option Expr
  | sign _ _ x, .right => some x
  | factorial _ x, .left => some x
  | binary _ _ x _, .left => some x
  | binary _ _ _ y, .right => some y
  | _, _ => none

/-- The number of levels; a literal has one. -/
def depth : Expr → Nat
  | literal .. => 1
  | sign _ _ x | factorial _ x => x.depth + 1
  | binary _ _ x y => max x.depth y.depth + 1

/-- All nodes with what they remember, each before its operands. -/
def nodes : Expr → List (Token × Option Value)
  | e@(literal m _) => [(e.label, m)]
  | e@(sign m _ x) | e@(factorial m x) => (e.label, m) :: x.nodes
  | e@(binary m _ x y) => (e.label, m) :: (x.nodes ++ y.nodes)

/-! ## Memory and shape -/

/-- The tree without anything remembered. -/
def clear : Expr → Expr
  | literal _ l => literal none l
  | sign _ s x => sign none s x.clear
  | factorial _ x => factorial none x.clear
  | binary _ b x y => binary none b x.clear y.clear

/-- Whether two trees have the same shape and equal literals, whatever they remember. Numbers in
face lists are compared as numbers. -/
def sameAs : Expr → Expr → Bool
  | literal _ l, literal _ l' => l == l'
  | sign _ s x, sign _ s' x' => s == s' && x.sameAs x'
  | factorial _ x, factorial _ x' => x.sameAs x'
  | binary _ b x y, binary _ b' x' y' => b == b' && x.sameAs x' && y.sameAs y'
  | _, _ => false

theorem memory_clear (e : Expr) : e.clear.memory = none := by
  cases e <;> rfl

theorem depth_clear (e : Expr) : e.clear.depth = e.depth := by
  induction e with
  | literal => rfl
  | sign _ _ _ ih => simp only [clear, depth, ih]
  | factorial _ _ ih => simp only [clear, depth, ih]
  | binary _ _ _ _ ihl ihr => simp only [clear, depth, ihl, ihr]

theorem depth_pos (e : Expr) : 0 < e.depth := by
  cases e <;> simp only [depth] <;> omega

end Expr

end DiceNotation
