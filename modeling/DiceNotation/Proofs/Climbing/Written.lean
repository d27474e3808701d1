import DiceNotation.Proofs.Climbing.Basic

/-!
# Climbing over written expressions

The tokens of an expression read as the expression itself wherever the operator on the left
lets it begin and the tokens that follow let it end:

* `climb_tokens`: what remains to be read after the tokens of an expression is what extends it.
* `read_tokens`: alone, the tokens of an expression read as that expression.
-/

namespace DiceNotation.Climbing

open Operator

/-- No operator that binds at least as tightly as the root takes anything from the tokens, so
the expression ends before them. -/
def EndsBefore (e : Expr) (rest : List Token) : Prop :=
  ∀ root, e.op? = some root → ∀ op, root.precedence ≤ op.precedence → Stops (some op) rest

/-- The operator on the left takes its operands before no operator after an operand that binds
at least as tightly as the root. -/
def BeginsAfter (left : Option Operator) (e : Expr) : Prop :=
  ∀ root, e.op? = some root → ∀ next, next.arity ≠ .before →
    root.precedence ≤ next.precedence → takesFirst left next = false

theorem stops_closed (left : Option Operator) (ts : List Token) : Stops left (.closed :: ts) := by
  intro next h
  cases h

theorem stops_nil (left : Option Operator) : Stops left [] := by
  intro next h
  cases h

theorem beginsAfter_none (e : Expr) : BeginsAfter none e := fun _ _ _ _ _ => rfl

/-! ## Operands -/

theorem endsBefore_of_not_encloses {next : Operator} {x : Expr} {ts : List Token}
    (h : next.encloses .left x.op? = false) (hts : extension? ts = some next) :
    EndsBefore x ts := by
  intro root hroot op hop next' hnext'
  rw [hts] at hnext'
  cases hnext'
  rw [hroot] at h
  exact reducesBefore_of_not_encloses h hop

theorem beginsAfter_of_not_encloses {op : Operator} {x : Expr}
    (h : op.encloses .right x.op? = false) (hop : op.arity ≠ .after) :
    BeginsAfter (some op) x := by
  intro root hroot next hnext hle
  rw [hroot] at h
  exact not_reducesBefore_of_not_encloses h hop hle hnext

/-- The right operand ends where the whole expression does. -/
theorem EndsBefore.right {e x : Expr} {op : Operator} {rest : List Token}
    (h : EndsBefore e rest) (he : e.op? = some op) (hx : op.encloses .right x.op? = false) :
    EndsBefore x rest := by
  intro root hroot op' hop'
  rw [hroot] at hx
  exact h op he op' (Nat.le_trans (precedence_le_of_not_encloses hx) hop')

/-- The left operand begins where the whole expression does. -/
theorem BeginsAfter.left {e x : Expr} {op : Operator} {left : Option Operator}
    (h : BeginsAfter left e) (he : e.op? = some op) (hx : op.encloses .left x.op? = false) :
    BeginsAfter left x := by
  intro root hroot next hnext hle
  rw [hroot] at hx
  exact h op he next hnext (Nat.le_trans (precedence_le_of_not_encloses hx) hle)

/-- An operand reads as itself, with or without parentheses. Without them its place has to be
such that it begins and ends there. -/
theorem climb_enclose {op : Operator} {side : Side} {x : Expr} {left : Option Operator}
    {rest : List Token}
    (ih : ∀ left rest, BeginsAfter left x → EndsBefore x rest →
      climb left (x.tokens ++ rest) = extend left x.clear rest)
    (hopen : op.encloses side x.op? = false → BeginsAfter left x ∧ EndsBefore x rest) :
    climb left (Expr.enclose op side x x.tokens ++ rest) = extend left x.clear rest := by
  cases henc : op.encloses side x.op? with
  | false =>
    obtain ⟨hbegin, hend⟩ := hopen henc
    rw [Expr.enclose, henc, if_neg Bool.false_ne_true]
    exact ih left rest hbegin hend
  | true =>
    have hinner : climb none (x.tokens ++ .closed :: rest) = some (x.clear, .closed :: rest) := by
      rw [ih none _ (beginsAfter_none x) fun _ _ op' _ => stops_closed (some op') rest]
      exact extend_of_stops _ (stops_closed none rest)
    rw [Expr.enclose, henc, if_pos rfl, climb_eq]
    simp only [List.cons_append, List.append_assoc, List.nil_append, operand_opened, hinner,
      Option.bind_some, leaveGroup]

/-! ## Whole expressions -/

/-- After the tokens of an expression, reading goes on with that expression in hand. -/
theorem climb_tokens (e : Expr) (left : Option Operator) (rest : List Token)
    (hbegin : BeginsAfter left e) (hend : EndsBefore e rest) :
    climb left (e.tokens ++ rest) = extend left e.clear rest := by
  induction e generalizing left rest with
  | literal m l =>
    cases l <;> simp [Expr.tokens, Literal.toToken, climb_eq, Expr.clear]
  | sign m s x ih =>
    have hx : climb (some (.sign s)) (Expr.enclose (.sign s) .right x x.tokens ++ rest) =
        some (x.clear, rest) := by
      rw [climb_enclose ih fun henc =>
        ⟨beginsAfter_of_not_encloses henc (by simp [arity]), hend.right rfl henc⟩]
      exact extend_of_stops _ (hend _ rfl _ (Nat.le_refl _))
    rw [Expr.tokens, List.cons_append, climb_eq, operand_sign, hx]
    rfl
  | factorial m x ih =>
    rw [Expr.tokens, List.append_assoc, climb_enclose ih fun henc =>
      ⟨hbegin.left rfl henc, endsBefore_of_not_encloses henc rfl⟩]
    exact extend_factorial _ _ (hbegin _ rfl _ (by simp [arity]) (Nat.le_refl _))
  | binary m b x y ihx ihy =>
    have hy : climb (some (.binary b)) (Expr.enclose b .right y y.tokens ++ rest) =
        some (y.clear, rest) := by
      rw [climb_enclose ihy fun henc =>
        ⟨beginsAfter_of_not_encloses henc (by simp [arity]), hend.right rfl henc⟩]
      exact extend_of_stops _ (hend _ rfl _ (Nat.le_refl _))
    rw [Expr.tokens, List.append_assoc, climb_enclose ihx fun henc =>
      ⟨hbegin.left rfl henc, endsBefore_of_not_encloses henc rfl⟩]
    rw [List.cons_append, extend_binary _ _ (hbegin _ rfl _ (by simp [arity]) (Nat.le_refl _)), hy]
    rfl

theorem read_tokens (e : Expr) : read e.tokens = some e.clear := by
  have h : climb none e.tokens = some (e.clear, []) := by
    have h := climb_tokens e none [] (beginsAfter_none e) fun _ _ op _ => stops_nil (some op)
    rw [List.append_nil] at h
    rw [h, extend_of_stops _ (stops_nil none)]
  rw [read, h]

end DiceNotation.Climbing
