import DiceNotation.Formula

/-!
# Rewriting dice operators

The kinds of dice operators form a chain. Each rewriting raises every dice operator to at least one
kind and leaves the other operators as they are, and so a mode raises to one kind after the other.

* `Expr.rewrite_eq`: rewriting is raising, for the tree and for whether anything changes.
* `Expr.averageify_eq_raise`, `Expr.critify_eq_raise`, `Expr.maxify_eq_raise`: to which kind.
* `Expr.applyMode_eq_foldl`: a mode raises to the kinds that it asks for.
-/

namespace DiceNotation

/-! ## The chain of kinds -/

namespace DiceKind

def rank : DiceKind → Nat
  | plain => 0
  | average => 1
  | critical => 2
  | maximum => 3

/-- The greater of two kinds. -/
def join (a b : DiceKind) : DiceKind := if a.rank < b.rank then b else a

end DiceKind

/-! ## Raising -/

/-- Raises a dice operator to at least a kind; other operators stay as they are. -/
def BinaryOperator.raise (kind : DiceKind) : BinaryOperator → BinaryOperator
  | .dice k => .dice (k.join kind)
  | b => b

namespace Expr

/-- Whether raising to a kind changes some operator of the expression. -/
def isChangedBy (kind : DiceKind) : Expr → Bool
  | literal .. => false
  | sign _ _ x | factorial _ x => x.isChangedBy kind
  | binary _ b x y => b.raise kind != b || x.isChangedBy kind || y.isChangedBy kind

/-- Raises every dice operator to at least a kind. -/
def raise (kind : DiceKind) (e : Expr) : Expr :=
  let memory := if e.isChangedBy kind then none else e.memory
  match e with
  | literal _ l => literal memory l
  | sign _ s x => sign memory s (x.raise kind)
  | factorial _ x => factorial memory (x.raise kind)
  | binary _ b x y => binary memory (b.raise kind) (x.raise kind) (y.raise kind)

theorem raise_binary (b : BinaryOperator) (x y : Expr) (kind : DiceKind) :
    (binary none b x y).raise kind = binary none (b.raise kind) (x.raise kind) (y.raise kind) := by
  rw [raise, memory, ite_self]

/-- What a tree remembers makes no difference to the tree that raising makes of it. -/
theorem clear_raise (e : Expr) (kind : DiceKind) : (e.raise kind).clear = e.clear.raise kind := by
  induction e with
  | literal m l => simp only [clear, raise, memory, ite_self]
  | sign m s x ih => simp only [clear, raise, memory, ite_self, ih]
  | factorial m x ih => simp only [clear, raise, memory, ite_self, ih]
  | binary m b x y ihx ihy => simp only [clear, raise, memory, ite_self, ihx, ihy]

/-! ## Rewriting as raising -/

variable {f : BinaryOperator → Option BinaryOperator} {kind : DiceKind}

/-- What is put in place of an operator, if that raises it and it is another one then. -/
theorem filter_ne_of_raises {b : BinaryOperator} (hf : (f b).getD b = b.raise kind) :
    (f b).filter (· != b) = if b.raise kind != b then some (b.raise kind) else none := by
  rw [← hf]
  cases f b with
  | none => simp
  | some new => rfl

/-- A rewriting that raises every operator raises the tree. -/
theorem rewrite_eq (hf : ∀ b, (f b).getD b = b.raise kind) (e : Expr) :
    e.rewrite f = (e.raise kind, e.isChangedBy kind) := by
  induction e with
  | literal m l => rfl
  | sign m s x ih =>
    rw [rewrite, ih]
    rfl
  | factorial m x ih =>
    rw [rewrite, ih]
    rfl
  | binary m b x y ihx ihy =>
    simp only [rewrite, raise, isChangedBy, memory, ihx, ihy, filter_ne_of_raises (hf b)]
    by_cases hb : b.raise kind = b
    · simp [hb]
    · simp [hb]

theorem averageify_eq_raise (e : Expr) : e.averageify = e.raise .average := by
  rw [averageify, rewrite_eq]
  intro b
  cases b with
  | dice k => cases k <;> rfl
  | _ => rfl

theorem critify_eq_raise (e : Expr) : e.critify = e.raise .critical := by
  rw [critify, rewrite_eq]
  intro b
  cases b with
  | dice k => cases k <;> rfl
  | _ => rfl

theorem maxify_eq_raise (e : Expr) : e.maxify = e.raise .maximum := by
  rw [maxify, rewrite_eq]
  intro b
  cases b with
  | dice k => cases k <;> rfl
  | _ => rfl

/-- A mode raises to the kinds that it asks for, one after the other. -/
theorem applyMode_eq_foldl (m : Mode) (e : Expr) :
    e.applyMode m = m.kinds.foldl (fun e kind => e.raise kind) e := by
  obtain ⟨average, critical, maximum⟩ := m
  cases average <;> cases critical <;> cases maximum <;>
    simp only [applyMode, averageify_eq_raise, critify_eq_raise, maxify_eq_raise] <;> rfl

end Expr

end DiceNotation
