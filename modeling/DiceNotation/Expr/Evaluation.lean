import DiceNotation.Application
import DiceNotation.Expr.Basic

/-!
# Evaluating expressions

Operands are evaluated before their operator, from left to right, and every node remembers what
it was evaluated to. A node that remembers a value is not evaluated again. After a failure the
nodes that were evaluated before it still remember their values.

* `evaluate_of_memory`: a remembered value costs nothing.
-/

namespace DiceNotation.Expr

variable {ρ : Type} [Roller ρ]

/-- Evaluates an expression; the tree that is returned remembers every value that was found. -/
def evaluate (e : Expr) : StateM (Context ρ) (Except RollError Value × Expr) :=
  match e.memory with
  | some v => return (.ok v, e)
  | none =>
    match e with
    | literal _ l => return (.ok l.toValue, literal (some l.toValue) l)
    | sign _ s x => do
      let (right, x) ← x.evaluate
      match right with
      | .error cause => return (.error cause, sign none s x)
      | .ok v =>
        let result ← ((Operator.sign s).apply none (some v)).run
        return (result, sign result.toOption s x)
    | factorial _ x => do
      let (left, x) ← x.evaluate
      match left with
      | .error cause => return (.error cause, factorial none x)
      | .ok v =>
        let result ← (Operator.factorial.apply (some v) none).run
        return (result, factorial result.toOption x)
    | binary _ b x y => do
      let (left, x) ← x.evaluate
      match left with
      | .error cause => return (.error cause, binary none b x y)
      | .ok v =>
        let (right, y) ← y.evaluate
        match right with
        | .error cause => return (.error cause, binary none b x y)
        | .ok w =>
          let result ← ((Operator.binary b).apply (some v) (some w)).run
          return (result, binary result.toOption b x y)

theorem evaluate_of_memory {e : Expr} {v : Value} (h : e.memory = some v) (ctx : Context ρ) :
    e.evaluate.run ctx = ((.ok v, e), ctx) := by
  unfold evaluate
  rw [h]
  rfl

end DiceNotation.Expr
