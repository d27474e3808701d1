import DiceNotation.Expr.Basic

/-!
# Subtrees

* `Everywhere`: what holds at every node holds at the root and everywhere in the operands.
* `subtrees_clear`: what a tree remembers makes no difference to the shapes of its subtrees.
* `mem_subtrees_of_at?`: where a path of operands leads, there is a subtree.
-/

namespace DiceNotation.Expr

/-- All nodes as expressions of their own, each before its operands. -/
def subtrees : Expr → List Expr
  | e@(literal ..) => [e]
  | e@(sign _ _ x) | e@(factorial _ x) => e :: x.subtrees
  | e@(binary _ _ x y) => e :: (x.subtrees ++ y.subtrees)

theorem mem_subtrees_self (e : Expr) : e ∈ e.subtrees := by
  cases e <;> exact List.mem_cons_self

theorem mem_subtrees_trans {x y e : Expr} (hx : x ∈ y.subtrees) (hy : y ∈ e.subtrees) :
    x ∈ e.subtrees := by
  induction e with
  | literal m l =>
    cases List.mem_singleton.mp hy
    exact hx
  | sign m s z ih | factorial m z ih =>
    rcases List.mem_cons.mp hy with rfl | hy
    · exact hx
    · exact List.mem_cons_of_mem _ (ih hy)
  | binary m b z w ihz ihw =>
    rcases List.mem_cons.mp hy with rfl | hy
    · exact hx
    · apply List.mem_cons_of_mem
      rcases List.mem_append.mp hy with hy | hy
      · exact List.mem_append_left _ (ihz hy)
      · exact List.mem_append_right _ (ihw hy)

theorem mem_subtrees_of_operand {x e : Expr} {side : Side} (h : e.operand? side = some x) :
    x ∈ e.subtrees := by
  have hx := x.mem_subtrees_self
  cases e with
  | literal m l => cases h
  | sign m s y =>
    cases side <;> cases h
    exact List.mem_cons_of_mem _ hx
  | factorial m y =>
    cases side <;> cases h
    exact List.mem_cons_of_mem _ hx
  | binary m b y z =>
    cases side <;> cases h
    · exact List.mem_cons_of_mem _ (List.mem_append_left _ hx)
    · exact List.mem_cons_of_mem _ (List.mem_append_right _ hx)

/-! ## Trees of the same shape -/

theorem subtrees_clear (e : Expr) : e.clear.subtrees = e.subtrees.map clear := by
  induction e with
  | literal m l => rfl
  | sign m s x ih => rw [clear, subtrees, subtrees, List.map_cons, ih, clear]
  | factorial m x ih => rw [clear, subtrees, subtrees, List.map_cons, ih, clear]
  | binary m b x y ihx ihy =>
    rw [clear, subtrees, subtrees, List.map_cons, List.map_append, ihx, ihy, clear]

theorem op?_clear (e : Expr) : e.clear.op? = e.op? := by
  cases e <;> rfl

theorem eq_literal_of_clear {e : Expr} {m : Option Value} {l : Literal}
    (h : e.clear = (literal m l).clear) : ∃ m', e = literal m' l := by
  cases e with
  | literal m' l' =>
    obtain ⟨-, rfl⟩ := literal.inj h
    exact ⟨m', rfl⟩
  | sign | factorial | binary => cases h

/-- Two trees that are the same but for what they remember have nodes of which this is true, too. -/
theorem exists_mem_subtrees_of_clear_eq {e e' x : Expr} (h : e'.clear = e.clear)
    (hx : x ∈ e'.subtrees) : ∃ y ∈ e.subtrees, x.clear = y.clear := by
  have hclear : x.clear ∈ e'.clear.subtrees := by
    rw [subtrees_clear]
    exact List.mem_map_of_mem hx
  rw [h, subtrees_clear] at hclear
  obtain ⟨y, hy, hxy⟩ := List.mem_map.mp hclear
  exact ⟨y, hy, hxy.symm⟩

/-! ## The way to a node -/

/-- The subtree at the end of a path that goes from the root from operand to operand. -/
def at? : Expr → List Side → Option Expr
  | e, [] => some e
  | e, side :: path => (e.operand? side).bind (·.at? path)

/-- The value that the node at the end of a path remembers. -/
def memoryAt (e : Expr) (path : List Side) : Option Value := (e.at? path).bind memory

theorem memoryAt_cons (e : Expr) (side : Side) (path : List Side) :
    e.memoryAt (side :: path) = (e.operand? side).bind (·.memoryAt path) := by
  rw [memoryAt, at?, Option.bind_assoc]
  rfl

theorem memoryAt_of_at? {e x : Expr} {path : List Side} (h : e.at? path = some x) :
    e.memoryAt path = x.memory := by
  rw [memoryAt, h, Option.bind_some]

theorem mem_subtrees_of_at? {e x : Expr} {path : List Side} (h : e.at? path = some x) :
    x ∈ e.subtrees := by
  induction path generalizing e with
  | nil =>
    cases h
    exact mem_subtrees_self _
  | cons side path ih =>
    obtain ⟨y, hy, hx⟩ := Option.bind_eq_some_iff.mp h
    exact mem_subtrees_trans (ih hx) (mem_subtrees_of_operand hy)

/-! ## What holds at every node -/

/-- Whether something holds of a tree and of all its subtrees. -/
def Everywhere (P : Expr → Prop) (e : Expr) : Prop := ∀ x ∈ e.subtrees, P x

variable {P : Expr → Prop}

theorem Everywhere.root {e : Expr} (h : e.Everywhere P) : P e := h e e.mem_subtrees_self

theorem Everywhere.subtree {x e : Expr} (h : e.Everywhere P) (hx : x ∈ e.subtrees) :
    x.Everywhere P := by
  intro y hy
  exact h y (mem_subtrees_trans hy hx)

theorem everywhere_literal {m : Option Value} {l : Literal} :
    (literal m l).Everywhere P ↔ P (literal m l) := List.forall_mem_singleton

theorem everywhere_sign {m : Option Value} {s : Sign} {x : Expr} :
    (sign m s x).Everywhere P ↔ P (sign m s x) ∧ x.Everywhere P := List.forall_mem_cons

theorem everywhere_factorial {m : Option Value} {x : Expr} :
    (factorial m x).Everywhere P ↔ P (factorial m x) ∧ x.Everywhere P := List.forall_mem_cons

theorem everywhere_binary {m : Option Value} {b : BinaryOperator} {x y : Expr} :
    (binary m b x y).Everywhere P ↔
      P (binary m b x y) ∧ x.Everywhere P ∧ y.Everywhere P :=
  List.forall_mem_cons.trans (and_congr_right' List.forall_mem_append)

end DiceNotation.Expr
