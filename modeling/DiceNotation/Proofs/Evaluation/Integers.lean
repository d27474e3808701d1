import DiceNotation.Proofs.Memory.Settled
import DiceNotation.Proofs.Report.Breakdown

/-!
# Calculating with integers

An expression without dice, face lists, modifiers and factorials only calculates. Once it has come
to an integer at every node, all of it is known from what it remembers: it is shown as it was
written, and evaluated anew it comes to the same integers in any context.

* `Calculated`: an evaluated expression of this kind.
* `Calculated.evaluate_clear`: evaluated anew it is as it was.
* `Calculated.breakdown_eq`: its breakdown is its text.
-/

namespace DiceNotation.Expr

/-! ## Nodes -/

/-- A node that only calculates: its operator, if it has one, binds less tightly than those that
throw dice, rework rolls or make factorials. -/
def IsCalculation (e : Expr) : Prop := ∀ op, e.op? = some op → op.precedence < modifierPrecedence

def HasInteger (e : Expr) : Prop := ∃ n : Int64, e.memory = some (.number (.int n))

/-- The integer that a node remembers; zero if it remembers none. -/
def amount (e : Expr) : Int64 :=
  match e.memory with
  | some (.number (.int n)) => n
  | _ => 0

theorem HasInteger.memory_eq {e : Expr} (h : e.HasInteger) :
    e.memory = some (.number (.int e.amount)) := by
  obtain ⟨n, hn⟩ := h
  rw [amount, hn]

/-! ## Trees -/

/-- An evaluated expression that only calculated, and came to an integer at every node. -/
def Calculated (e : Expr) : Prop :=
  e.Everywhere fun x => x.IsCurrent ∧ x.IsCalculation ∧ x.HasInteger

namespace Calculated

variable {ρ : Type} [Roller ρ]

theorem memory_eq {e : Expr} (h : e.Calculated) : e.memory = some (.number (.int e.amount)) :=
  h.root.2.2.memory_eq

/-- What an operator has yielded once it yields in any context. -/
theorem run_of_yields {op : Operator} {left right : Option Value} {v : Value}
    (hop : op.precedence < modifierPrecedence) (h : op.Yields left right v) (ctx : Context ρ) :
    (op.apply left right).run.run ctx = (.ok v, ctx) := by
  obtain ⟨σ, _, other, hrun⟩ := h
  exact Operator.run_of_summed hop rfl rfl (Prod.ext hrun rfl) ctx

/-- Evaluated anew, in any context, the expression remembers what it remembered before. -/
theorem evaluate_clear {e : Expr} (h : e.Calculated) (ctx : Context ρ) :
    e.clear.evaluate.run ctx = ((.ok (.number (.int e.amount)), e), ctx) := by
  have hmemory := h.memory_eq
  generalize Value.number (.int e.amount) = v at hmemory ⊢
  induction e generalizing v with
  | literal m l =>
    obtain rfl : m = some v := hmemory
    obtain rfl : v = l.toValue := (h.root.1 v rfl).2
    rfl
  | sign m s x ih =>
    obtain rfl : m = some v := hmemory
    obtain ⟨⟨hcurrent, hnode, -⟩, hx⟩ := everywhere_sign.mp h
    have hyields : (Operator.sign s).Yields none x.memory v := (hcurrent v rfl).2
    rw [memory_eq hx] at hyields
    have hrun := run_of_yields (hnode _ rfl) hyields ctx
    exact run_evaluate_sign (ih hx _ (memory_eq hx)) hrun
  | factorial m x ih =>
    exact absurd (h.root.2.1 _ rfl) (by decide)
  | binary m b x y ihx ihy =>
    obtain rfl : m = some v := hmemory
    obtain ⟨⟨hcurrent, hnode, -⟩, hx, hy⟩ := everywhere_binary.mp h
    have hyields : (Operator.binary b).Yields x.memory y.memory v := (hcurrent v rfl).2
    rw [memory_eq hx, memory_eq hy] at hyields
    have hrun := run_of_yields (hnode _ rfl) hyields ctx
    exact run_evaluate_binary (ihx hx _ (memory_eq hx)) (ihy hy _ (memory_eq hy)) hrun

end Calculated

/-! ### Building evaluated trees -/

/-- An integer that remembers itself. -/
def counted (n : Int64) : Expr := literal (some (.number (.int n))) (.int n)

theorem calculated_counted (n : Int64) : (counted n).Calculated := by
  refine everywhere_literal.mpr ⟨isCurrent_literal (.int n), ?_, n, rfl⟩
  rintro _ ⟨⟩

namespace Calculated

variable {ρ : Type} [Roller ρ] {x y : Expr} {n : Int64}

theorem sign {s : Sign} (hx : x.Calculated) (ctx : Context ρ)
    (h : ((Operator.sign s).apply none (some (.number (.int x.amount)))).run.run ctx =
      (.ok (.number (.int n)), ctx)) :
    (Expr.sign (some (.number (.int n))) s x).Calculated := by
  refine everywhere_sign.mpr ⟨⟨isCurrent_sign hx.memory_eq h, ?_, n, rfl⟩, hx⟩
  rintro _ ⟨⟩
  exact sign_lt_modifier s

theorem binary {b : BinaryOperator} (hb : (Operator.binary b).precedence < modifierPrecedence)
    (hx : x.Calculated) (hy : y.Calculated) (ctx : Context ρ)
    (h : ((Operator.binary b).apply (some (.number (.int x.amount)))
      (some (.number (.int y.amount)))).run.run ctx = (.ok (.number (.int n)), ctx)) :
    (Expr.binary (some (.number (.int n))) b x y).Calculated := by
  refine everywhere_binary.mpr ⟨⟨isCurrent_binary hx.memory_eq hy.memory_eq h, ?_, n, rfl⟩, hx, hy⟩
  rintro _ ⟨⟩
  exact hb

end Calculated

/-! ## Breakdowns -/

/-- The text of an expression depends on how its nodes are shown. -/
theorem render_congr {atom atom' : Expr → Option String} {e : Expr}
    (h : e.Everywhere fun x => atom x = atom' x) : e.render atom = e.render atom' := by
  induction e with
  | literal m l => rw [render, render, h.root]
  | sign m s x ih =>
    obtain ⟨hroot, hx⟩ := everywhere_sign.mp h
    rw [render, render, hroot, ih hx, operandText, operandText, hx.root]
  | factorial m x ih =>
    obtain ⟨hroot, hx⟩ := everywhere_factorial.mp h
    rw [render, render, hroot, ih hx, operandText, operandText, hx.root]
  | binary m b x y ihx ihy =>
    obtain ⟨hroot, hx, hy⟩ := everywhere_binary.mp h
    simp only [render, hroot, ihx hx, ihy hy, operandText, hx.root, hy.root]

theorem IsCalculation.outcome?_eq_none {e : Expr} (h : e.IsCalculation) : e.outcome? = none := by
  rw [outcome?]
  cases hop : e.op? with
  | none => rfl
  | some op =>
    refine if_neg fun hle => ?_
    exact Nat.not_le.mpr (h op hop) (of_decide_eq_true hle)

/-- Nothing but rolls and factorials is shown by its outcome. -/
theorem Calculated.breakdown_eq {e : Expr} (h : e.Calculated) : e.breakdown = e.text :=
  render_congr fun x hx => (h x hx).2.1.outcome?_eq_none

end DiceNotation.Expr
