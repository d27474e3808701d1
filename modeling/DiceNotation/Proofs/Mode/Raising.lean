import DiceNotation.Proofs.Memory.Settled

/-!
# Modes as joins

The kinds of dice operators form a chain, and raising to a kind takes the greater of two. So a
mode raises once, to the highest kind that it contains, and modes that are applied one after the
other act like the mode that contains both.

* `Expr.raise_raise`: raising twice is raising to the greater kind, for what is remembered too.
* `Expr.applyMode_eq_raise`: a mode raises to its highest kind.
* `Formula.applyMode_joins`: what a mode makes of every node, and of another mode.
-/

namespace DiceNotation

/-! ## The chain of kinds -/

namespace DiceKind

theorem rank_join (j k : DiceKind) : (j.join k).rank = max j.rank k.rank := by
  cases j <;> cases k <;> rfl

theorem join_assoc (i j k : DiceKind) : (i.join j).join k = i.join (j.join k) := by
  cases i <;> cases j <;> cases k <;> rfl

theorem join_comm (j k : DiceKind) : j.join k = k.join j := by
  cases j <;> cases k <;> rfl

theorem join_plain (k : DiceKind) : k.join plain = k := by
  cases k <;> rfl

/-- Going up in two steps, one of the steps is a change if the whole is. -/
theorem join_join_bne (i j k : DiceKind) :
    (i.join (j.join k) != i) = (i.join j != i || (i.join j).join k != i.join j) := by
  cases i <;> cases j <;> cases k <;> rfl

end DiceKind

namespace Mode

/-- The highest kind that a mode contains; the normal mode only contains the plain one. -/
def kind (m : Mode) : DiceKind :=
  if m.contains (ofKind .maximum) then .maximum
  else if m.contains (ofKind .critical) then .critical
  else if m.contains (ofKind .average) then .average
  else .plain

theorem kind_eq_foldl (m : Mode) : m.kind = m.kinds.foldl DiceKind.join .plain := by
  obtain ⟨average, critical, maximum⟩ := m
  cases average <;> cases critical <;> cases maximum <;> rfl

theorem kind_or (m m' : Mode) : (m ||| m').kind = m.kind.join m'.kind := by
  obtain ⟨average, critical, maximum⟩ := m
  obtain ⟨average', critical', maximum'⟩ := m'
  revert average critical maximum average' critical' maximum'
  decide

end Mode

namespace BinaryOperator

theorem raise_raise (b : BinaryOperator) (j k : DiceKind) :
    (b.raise j).raise k = b.raise (j.join k) := by
  cases b with
  | dice i => exact congrArg dice (i.join_assoc j k)
  | modifier m => rfl
  | arithmetic a => rfl
  | test t => rfl

theorem raise_bne (b : BinaryOperator) (j k : DiceKind) :
    (b.raise (j.join k) != b) = (b.raise j != b || (b.raise j).raise k != b.raise j) := by
  cases b with
  | dice i =>
    have hdice (x y : DiceKind) : (dice x != dice y) = (x != y) := by
      cases x <;> cases y <;> rfl
    simp only [raise, hdice, DiceKind.join_join_bne]
  | modifier m => simp only [raise, bne_self_eq_false, Bool.or_false]
  | arithmetic a => simp only [raise, bne_self_eq_false, Bool.or_false]
  | test t => simp only [raise, bne_self_eq_false, Bool.or_false]

end BinaryOperator

/-! ## Raising twice -/

namespace Expr

theorem isChangedBy_join (e : Expr) (j k : DiceKind) :
    e.isChangedBy (j.join k) = (e.isChangedBy j || (e.raise j).isChangedBy k) := by
  induction e with
  | literal m l => rfl
  | sign m s x ih => exact ih
  | factorial m x ih => exact ih
  | binary m b x y ihx ihy =>
    simp only [isChangedBy, raise, BinaryOperator.raise_bne, ihx, ihy]
    ac_rfl

theorem memory_raise (e : Expr) (k : DiceKind) :
    (e.raise k).memory = if e.isChangedBy k then none else e.memory := by
  cases e <;> rfl

/-- What is forgotten in two steps is what the two steps together change. -/
theorem memory_raise_raise (e : Expr) (j k : DiceKind) :
    ((e.raise j).raise k).memory = (e.raise (j.join k)).memory := by
  rw [memory_raise, memory_raise, memory_raise, isChangedBy_join]
  cases e.isChangedBy j <;> cases (e.raise j).isChangedBy k <;> rfl

/-- Raising twice is raising to the greater kind, for what is remembered too. -/
theorem raise_raise (e : Expr) (j k : DiceKind) : (e.raise j).raise k = e.raise (j.join k) := by
  induction e with
  | literal m l => rfl
  | sign m s x ih =>
    change sign (((sign m s x).raise j).raise k).memory s ((x.raise j).raise k) =
      sign ((sign m s x).raise (j.join k)).memory s (x.raise (j.join k))
    rw [memory_raise_raise, ih]
  | factorial m x ih =>
    change factorial (((factorial m x).raise j).raise k).memory ((x.raise j).raise k) =
      factorial ((factorial m x).raise (j.join k)).memory (x.raise (j.join k))
    rw [memory_raise_raise, ih]
  | binary m b x y ihx ihy =>
    change binary (((binary m b x y).raise j).raise k).memory ((b.raise j).raise k)
        ((x.raise j).raise k) ((y.raise j).raise k) =
      binary ((binary m b x y).raise (j.join k)).memory (b.raise (j.join k))
        (x.raise (j.join k)) (y.raise (j.join k))
    rw [memory_raise_raise, b.raise_raise, ihx, ihy]

theorem isChangedBy_plain (e : Expr) : e.isChangedBy .plain = false := by
  induction e with
  | literal m l => rfl
  | sign m s x ih => exact ih
  | factorial m x ih => exact ih
  | binary m b x y ihx ihy =>
    have hb : b.raise .plain = b := by
      cases b with
      | dice k => exact congrArg BinaryOperator.dice k.join_plain
      | _ => rfl
    simp only [isChangedBy, hb, bne_self_eq_false, ihx, ihy, Bool.or_false]

theorem raise_plain (e : Expr) : e.raise .plain = e := raise_of_unchanged e.isChangedBy_plain

theorem foldl_raise (kinds : List DiceKind) (e : Expr) (j : DiceKind) :
    kinds.foldl (fun e k => e.raise k) (e.raise j) = e.raise (kinds.foldl DiceKind.join j) := by
  induction kinds generalizing j with
  | nil => rfl
  | cons k kinds ih => rw [List.foldl_cons, raise_raise, ih, List.foldl_cons]

/-- A mode raises to its highest kind. -/
theorem applyMode_eq_raise (m : Mode) (e : Expr) : e.applyMode m = e.raise m.kind := by
  rw [applyMode_eq_foldl, Mode.kind_eq_foldl, ← foldl_raise, raise_plain]

theorem applyMode_applyMode (m m' : Mode) (e : Expr) :
    (e.applyMode m).applyMode m' = e.applyMode (m ||| m') := by
  simp only [applyMode_eq_raise, raise_raise, Mode.kind_or]

/-! ## Node by node -/

theorem operand?_raise (e : Expr) (k : DiceKind) (side : Side) :
    (e.raise k).operand? side = (e.operand? side).map (·.raise k) := by
  cases e <;> cases side <;> rfl

theorem at?_raise (e : Expr) (k : DiceKind) (path : List Side) :
    (e.raise k).at? path = (e.at? path).map (·.raise k) := by
  induction path generalizing e with
  | nil => rfl
  | cons side path ih =>
    rw [at?, at?, operand?_raise]
    cases e.operand? side with
    | none => rfl
    | some x => exact ih x

theorem op?_raise {e : Expr} {j : DiceKind} (h : e.op? = some (.binary (.dice j)))
    (k : DiceKind) : (e.raise k).op? = some (.binary (.dice (j.join k))) := by
  cases e with
  | literal m l => cases h
  | sign m s x => cases h
  | factorial m x => cases h
  | binary m b x y =>
    cases h
    rfl

theorem label_raise {e : Expr} (h : ∀ j, e.op? ≠ some (.binary (.dice j))) (k : DiceKind) :
    (e.raise k).label = e.label := by
  cases e with
  | literal m l => rfl
  | sign m s x => rfl
  | factorial m x => rfl
  | binary m b x y =>
    cases b with
    | dice j => exact absurd rfl (h j)
    | modifier m => rfl
    | arithmetic a => rfl
    | test t => rfl

/-- Whether two trees have the same literals and operators in the same places. -/
def SameLabels (x y : Expr) : Prop := ∀ path, (y.at? path).map label = (x.at? path).map label

theorem SameLabels.operand {x y x' y' : Expr} (h : SameLabels x y) (side : Side)
    (hx : x.operand? side = some x') (hy : y.operand? side = some y') : SameLabels x' y' := by
  intro path
  have hbelow := h (side :: path)
  rwa [at?, at?, hx, hy] at hbelow

/-- An operator changes if and only if a label does. -/
theorem isChangedBy_eq_false_iff {e : Expr} {k : DiceKind} :
    e.isChangedBy k = false ↔ e.SameLabels (e.raise k) := by
  constructor
  · intro h path
    rw [raise_of_unchanged h]
  · intro h
    induction e with
    | literal m l => rfl
    | sign m s x ih => exact ih (h.operand .right rfl rfl)
    | factorial m x ih => exact ih (h.operand .left rfl rfl)
    | binary m b x y ihx ihy =>
      have hroot : b.raise k = b := by
        have hlabel := h []
        injection hlabel with hlabel
        injection hlabel with hop
        injection hop
      have hx := ihx (h.operand .left rfl rfl)
      have hy := ihy (h.operand .right rfl rfl)
      simp only [isChangedBy, hroot, bne_self_eq_false, hx, hy, Bool.or_false]

/-- What becomes of a node where dice operators are raised to at least a kind. -/
structure IsRaised (k : DiceKind) (x y : Expr) : Prop where
  /-- A dice operator becomes the greater of itself and the kind. -/
  dice : ∀ j, x.op? = some (.binary (.dice j)) →
    ∃ i, y.op? = some (.binary (.dice i)) ∧ i.rank = max j.rank k.rank
  /-- Other operators and literals stay as they are. -/
  other : (∀ j, x.op? ≠ some (.binary (.dice j))) → y.label = x.label
  /-- A value is kept if no operator at the node or below it has become another. -/
  kept : x.SameLabels y → y.memory = x.memory
  /-- All other values are forgotten. -/
  forgotten : ¬x.SameLabels y → y.memory = none

theorem isRaised_raise (k : DiceKind) (e : Expr) : IsRaised k e (e.raise k) where
  dice j hj := ⟨j.join k, op?_raise hj k, j.rank_join k⟩
  other h := label_raise h k
  kept h := by rw [raise_of_unchanged (isChangedBy_eq_false_iff.mpr h)]
  forgotten h := by
    rw [← isChangedBy_eq_false_iff, Bool.not_eq_false] at h
    exact memory_raise_of_changed h

end Expr

namespace Formula

/-- The node at the end of a path. -/
def at? (f : Formula) (path : List Side) : Option Expr := f.root.bind (·.at? path)

theorem at?_applyMode (f : Formula) (m : Mode) (path : List Side) :
    (f.applyMode m).at? path = (f.at? path).map (·.raise m.kind) := by
  rw [at?, at?, applyMode]
  cases f.root with
  | none => rfl
  | some e =>
    rw [Option.map_some, Option.bind_some, Option.bind_some, Expr.applyMode_eq_raise]
    exact e.at?_raise m.kind path

theorem applyMode_applyMode (f : Formula) (m m' : Mode) :
    (f.applyMode m).applyMode m' = f.applyMode (m ||| m') := by
  rw [applyMode, applyMode, applyMode, Option.map_map]
  exact congrArg (fun g => Formula.mk (f.root.map g))
    (funext fun e => e.applyMode_applyMode m m')

/-- A mode changes no shape. It raises every dice operator to at least the highest kind that it
contains, and a node forgets its value exactly if that changes an operator at it or below it. Two
modes, in either order, act like the mode that contains both. -/
theorem applyMode_joins (f : Formula) (m m' : Mode) :
    (∀ path, Option.Rel (Expr.IsRaised m.kind) (f.at? path) ((f.applyMode m).at? path)) ∧
      (f.applyMode m).applyMode m' = f.applyMode (m ||| m') ∧
      (f.applyMode m').applyMode m = f.applyMode (m ||| m') := by
  refine ⟨fun path => ?_, f.applyMode_applyMode m m', ?_⟩
  · rw [at?_applyMode]
    cases f.at? path with
    | none => exact .none
    | some e => exact .some (e.isRaised_raise m.kind)
  · have hcomm : (m' ||| m).kind = (m ||| m').kind := by
      rw [Mode.kind_or, Mode.kind_or, DiceKind.join_comm]
    rw [applyMode_applyMode, applyMode, applyMode]
    exact congrArg (fun g => Formula.mk (f.root.map g))
      (funext fun e => by rw [Expr.applyMode_eq_raise, Expr.applyMode_eq_raise, hcomm])

end Formula

end DiceNotation
