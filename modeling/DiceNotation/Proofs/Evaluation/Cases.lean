import DiceNotation.Report

/-!
# Evaluation case by case

What an evaluation of an expression can do: answer from memory, stop at the first operand that
fails, or apply the operator to the values of its operands.

* `isCase_evaluate`: every evaluation is one of these cases, so that a fact about evaluation is
  an induction over them.
* `Evaluates.memory_eq`: afterwards the root remembers the value, if there is one.
* `Formula.evaluate_cases`: a formula starts the budget anew and evaluates its root.
-/

namespace DiceNotation

namespace Expr

variable {ρ : Type} [Roller ρ]

/-- An expression in a context comes out as a result, with what it remembers then, and a context
in which the dice are rolled. -/
inductive Evaluates : Expr → Context ρ → Except RollError Value → Expr → Context ρ → Prop where
  | remembered {e : Expr} {v : Value} {ctx : Context ρ} :
      e.memory = some v → Evaluates e ctx (.ok v) e ctx
  | literal (l : Literal) (ctx : Context ρ) :
      Evaluates (literal none l) ctx (.ok l.toValue) (literal (some l.toValue) l) ctx
  | sign {s : Sign} {x x' : Expr} {v : Value} {result : Except RollError Value}
      {ctx mid last : Context ρ} : Evaluates x ctx (.ok v) x' mid →
      ((Operator.sign s).apply none (some v)).run.run mid = (result, last) →
      Evaluates (sign none s x) ctx result (sign result.toOption s x') last
  | signFails {s : Sign} {x x' : Expr} {c : RollError} {ctx last : Context ρ} :
      Evaluates x ctx (.error c) x' last →
      Evaluates (sign none s x) ctx (.error c) (sign none s x') last
  | factorial {x x' : Expr} {v : Value} {result : Except RollError Value}
      {ctx mid last : Context ρ} : Evaluates x ctx (.ok v) x' mid →
      (Operator.factorial.apply (some v) none).run.run mid = (result, last) →
      Evaluates (factorial none x) ctx result (factorial result.toOption x') last
  | factorialFails {x x' : Expr} {c : RollError} {ctx last : Context ρ} :
      Evaluates x ctx (.error c) x' last →
      Evaluates (factorial none x) ctx (.error c) (factorial none x') last
  | binary {b : BinaryOperator} {x x' y y' : Expr} {v w : Value}
      {result : Except RollError Value} {ctx left right last : Context ρ} :
      Evaluates x ctx (.ok v) x' left → Evaluates y left (.ok w) y' right →
      ((Operator.binary b).apply (some v) (some w)).run.run right = (result, last) →
      Evaluates (binary none b x y) ctx result (binary result.toOption b x' y') last
  | leftFails {b : BinaryOperator} {x x' y : Expr} {c : RollError} {ctx last : Context ρ} :
      Evaluates x ctx (.error c) x' last →
      Evaluates (binary none b x y) ctx (.error c) (binary none b x' y) last
  | rightFails {b : BinaryOperator} {x x' y y' : Expr} {v : Value} {c : RollError}
      {ctx left last : Context ρ} :
      Evaluates x ctx (.ok v) x' left → Evaluates y left (.error c) y' last →
      Evaluates (binary none b x y) ctx (.error c) (binary none b x' y') last

theorem Evaluates.memory_eq {e e' : Expr} {result : Except RollError Value}
    {ctx last : Context ρ} (h : Evaluates e ctx result e' last) : e'.memory = result.toOption := by
  cases h with
  | remembered hm => exact hm
  | literal => rfl
  | sign => rfl
  | signFails => rfl
  | factorial => rfl
  | factorialFails => rfl
  | binary => rfl
  | leftFails => rfl
  | rightFails => rfl

/-! ## Runs step by step -/

section Runs

variable {ctx mid right last : Context ρ}

theorem run_evaluate_sign {s : Sign} {x x' : Expr} {v : Value} {result : Except RollError Value}
    (hx : x.evaluate.run ctx = ((.ok v, x'), mid))
    (h : ((Operator.sign s).apply none (some v)).run.run mid = (result, last)) :
    (sign none s x).evaluate.run ctx = ((result, sign result.toOption s x'), last) := by
  rw [evaluate, memory, StateT.run_bind, hx]
  change StateT.run (((Operator.sign s).apply none (some v)).run >>= _) mid = _
  rw [StateT.run_bind, h]
  rfl

theorem run_evaluate_binary {b : BinaryOperator} {x x' y y' : Expr} {v w : Value}
    {result : Except RollError Value} (hx : x.evaluate.run ctx = ((.ok v, x'), mid))
    (hy : y.evaluate.run mid = ((.ok w, y'), right))
    (h : ((Operator.binary b).apply (some v) (some w)).run.run right = (result, last)) :
    (binary none b x y).evaluate.run ctx = ((result, binary result.toOption b x' y'), last) := by
  rw [evaluate, memory, StateT.run_bind, hx]
  change StateT.run (y.evaluate >>= _) mid = _
  rw [StateT.run_bind, hy]
  change StateT.run (((Operator.binary b).apply (some v) (some w)).run >>= _) right = _
  rw [StateT.run_bind, h]
  rfl

/-- The value and the context that an evaluation leaves behind, without the tree. -/
def outcome (e : Expr) (ctx : Context ρ) : Except RollError Value × Context ρ :=
  ((e.evaluate.run ctx).1.1, (e.evaluate.run ctx).2)

theorem outcome_binary (b : BinaryOperator) (x y : Expr) (ctx : Context ρ) :
    (binary none b x y).outcome ctx =
      match x.outcome ctx with
      | (.error c, mid) => (.error c, mid)
      | (.ok v, mid) =>
        match y.outcome mid with
        | (.error c, last) => (.error c, last)
        | (.ok w, last) => ((Operator.binary b).apply (some v) (some w)).run.run last := by
  unfold outcome
  rcases hx : x.evaluate.run ctx with ⟨⟨c | v, x'⟩, mid⟩
  · rw [evaluate, memory, StateT.run_bind, hx]
    rfl
  · rcases hy : y.evaluate.run mid with ⟨⟨c | w, y'⟩, last⟩
    · have hrun : (binary none b x y).evaluate.run ctx =
          ((.error c, binary none b x' y'), last) := by
        rw [evaluate, memory, StateT.run_bind, hx]
        change StateT.run (y.evaluate >>= _) mid = _
        rw [StateT.run_bind, hy]
        rfl
      simp only [hrun, hy]
    · rcases happly : ((Operator.binary b).apply (some v) (some w)).run.run last with
        ⟨result, last'⟩
      simp only [run_evaluate_binary hx hy happly, hy, happly]

end Runs

/-! ## Every evaluation is one of the cases -/

/-- What a run of an evaluation gave is one of the cases. -/
def IsCase (e : Expr) (ctx : Context ρ) (run : (Except RollError Value × Expr) × Context ρ) :
    Prop :=
  Evaluates e ctx run.1.1 run.1.2 run.2

theorem isCase_sign {x : Expr} (s : Sign) {ctx : Context ρ}
    (h : IsCase x ctx (x.evaluate.run ctx)) :
    IsCase (sign none s x) ctx ((sign none s x).evaluate.run ctx) := by
  rw [evaluate, memory, StateT.run_bind]
  generalize x.evaluate.run ctx = run at h ⊢
  rcases run with ⟨⟨_ | v, x'⟩, mid⟩
  · exact .signFails h
  · exact .sign h rfl

theorem isCase_factorial {x : Expr} {ctx : Context ρ} (h : IsCase x ctx (x.evaluate.run ctx)) :
    IsCase (factorial none x) ctx ((factorial none x).evaluate.run ctx) := by
  rw [evaluate, memory, StateT.run_bind]
  generalize x.evaluate.run ctx = run at h ⊢
  rcases run with ⟨⟨_ | v, x'⟩, mid⟩
  · exact .factorialFails h
  · exact .factorial h rfl

theorem isCase_binary {x y : Expr} (b : BinaryOperator) {ctx : Context ρ}
    (hx : IsCase x ctx (x.evaluate.run ctx))
    (hy : ∀ ctx : Context ρ, IsCase y ctx (y.evaluate.run ctx)) :
    IsCase (binary none b x y) ctx ((binary none b x y).evaluate.run ctx) := by
  rw [evaluate, memory, StateT.run_bind]
  generalize x.evaluate.run ctx = run at hx ⊢
  rcases run with ⟨⟨_ | v, x'⟩, left⟩
  · exact .leftFails hx
  · have hright := hy left
    change IsCase _ _ (StateT.run (y.evaluate >>= _) left)
    rw [StateT.run_bind]
    generalize y.evaluate.run left = run at hright ⊢
    rcases run with ⟨⟨_ | w, y'⟩, right⟩
    · exact .rightFails hx hright
    · exact .binary hx hright rfl

theorem isCase_evaluate (e : Expr) (ctx : Context ρ) :
    IsCase e ctx (e.evaluate.run ctx) := by
  induction e generalizing ctx with
  | literal m l =>
    cases m with
    | none => exact .literal l ctx
    | some v =>
      rw [evaluate_of_memory rfl]
      exact .remembered rfl
  | sign m s x ih =>
    cases m with
    | none => exact isCase_sign s (ih ctx)
    | some v =>
      rw [evaluate_of_memory rfl]
      exact .remembered rfl
  | factorial m x ih =>
    cases m with
    | none => exact isCase_factorial (ih ctx)
    | some v =>
      rw [evaluate_of_memory rfl]
      exact .remembered rfl
  | binary m b x y ihx ihy =>
    cases m with
    | none => exact isCase_binary b (ihx ctx) ihy
    | some v =>
      rw [evaluate_of_memory rfl]
      exact .remembered rfl

end Expr

namespace Formula

variable {ρ : Type} [Roller ρ]

theorem evaluate_of_empty {f : Formula} (h : f.root = none) (ctx : Context ρ) :
    f.evaluate.run ctx = ((.ok .zero, f), ctx.reset) := by
  unfold evaluate
  rw [h]
  rfl

theorem evaluate_of_root {f : Formula} {e e' : Expr} {result : Except RollError Value}
    {ctx last : Context ρ} (h : f.root = some e)
    (he : e.evaluate.run ctx.reset = ((result, e'), last)) :
    f.evaluate.run ctx = ((result.map Value.collapse, ⟨some e'⟩), last) := by
  unfold evaluate
  rw [h]
  change StateT.run (e.evaluate >>= fun found : Except RollError Value × Expr =>
    pure (found.1.map Value.collapse, Formula.mk (some found.2))) ctx.reset = _
  rw [StateT.run_bind, he]
  rfl

theorem report_of_evaluate {f f' : Formula} {result : Except RollError Number}
    {ctx last : Context ρ} (h : f.evaluate.run ctx = ((result, f'), last)) :
    f.report.run ctx = ((result.map fun total => ⟨f'.breakdown, total⟩, f'), last) := by
  rw [report, StateT.run_bind, h]
  rfl

/-- The outcome of the root with a new budget. -/
def outcome (f : Formula) (ctx : Context ρ) : Except RollError Value × Context ρ :=
  f.rootOrZero.outcome ctx.reset

theorem outcome_evaluate (f : Formula) (ctx : Context ρ) :
    ((f.evaluate.run ctx).1.1, (f.evaluate.run ctx).2) =
      ((f.outcome ctx).1.map Value.collapse, (f.outcome ctx).2) := by
  cases f with
  | mk root =>
    cases root with
    | none =>
      rw [evaluate_of_empty rfl]
      rfl
    | some e =>
      rw [evaluate_of_root rfl rfl]
      rfl

/-- An empty formula is zero, and any other is evaluated with a new budget. -/
theorem evaluate_cases (f : Formula) (ctx : Context ρ) :
    (f.root = none ∧ f.evaluate.run ctx = ((.ok .zero, f), ctx.reset)) ∨
    ∃ e result e' last, f.root = some e ∧ Expr.Evaluates e ctx.reset result e' last ∧
      f.evaluate.run ctx = ((result.map Value.collapse, ⟨some e'⟩), last) := by
  cases hroot : f.root with
  | none => exact .inl ⟨rfl, evaluate_of_empty hroot ctx⟩
  | some e =>
    have hcase := e.isCase_evaluate ctx.reset
    exact .inr ⟨e, _, _, _, rfl, hcase, evaluate_of_root hroot rfl⟩

end Formula

end DiceNotation
