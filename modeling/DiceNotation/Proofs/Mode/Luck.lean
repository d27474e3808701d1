import DiceNotation.Proofs.Evaluation.Alike
import DiceNotation.Proofs.Mode.Raising
import DiceNotation.Proofs.Rolling.Recording

/-!
# Formulas that leave nothing to luck

Where every die counts as its mean or as its greatest value and nothing is rolled again, no
operator asks the roller. Two evaluations with one budget then differ in nothing, and neither of
them touches its roller.

* `Expr.everywhere_raise`: what holds everywhere after raising held of the raised nodes.
* `Formula.applyMode_ignores_roller`: the two evaluations side by side.
-/

namespace DiceNotation

/-! ## Operators before and after -/

/-- Whether an operator rolls values again. -/
def Operator.isReroll : Operator → Bool
  | .binary (.modifier (.reroll _ _)) => true
  | _ => false

/-- An operator that asks the roller throws dice that are rolled, or rolls values again. -/
theorem Operator.asksRoller_cases {op : Operator} (h : op.asksRoller = true) :
    (∃ k : DiceKind, op = .binary (.dice k) ∧ k.isRolled = true) ∨ op.isReroll = true := by
  cases op with
  | sign s => cases h
  | factorial => cases h
  | binary b =>
    cases b with
    | dice k => exact .inl ⟨k, rfl, h⟩
    | modifier m =>
      cases m with
      | reroll relation repetition => exact .inr rfl
      | keepHigh | keepLow | floor | ceiling | countAtLeast | countAtMost => cases h
    | arithmetic a => cases h
    | test t => cases h

namespace Expr

theorem subtrees_raise (e : Expr) (k : DiceKind) :
    (e.raise k).subtrees = e.subtrees.map (·.raise k) := by
  induction e with
  | literal m l => rfl
  | sign m s x ih => exact congrArg ((sign m s x).raise k :: ·) ih
  | factorial m x ih => exact congrArg ((factorial m x).raise k :: ·) ih
  | binary m b x y ihx ihy =>
    change (binary m b x y).raise k :: ((x.raise k).subtrees ++ (y.raise k).subtrees) = _
    rw [ihx, ihy, ← List.map_append]
    rfl

theorem everywhere_raise {P : Expr → Prop} {e : Expr} {k : DiceKind} :
    (e.raise k).Everywhere P ↔ e.Everywhere fun x => P (x.raise k) := by
  rw [Everywhere, subtrees_raise, List.forall_mem_map]
  rfl

/-- Raising makes no operator one that rolls values again. -/
theorem op?_eq_of_raise {e : Expr} {k : DiceKind} {op : Operator} (h : (e.raise k).op? = some op)
    (hop : op.isReroll = true) : e.op? = some op := by
  cases e with
  | literal m l => cases h
  | sign m s x => exact h
  | factorial m x => exact h
  | binary m b x y =>
    cases b with
    | dice j =>
      cases h
      cases hop
    | modifier m => exact h
    | arithmetic a => exact h
    | test t => exact h

end Expr

/-- Whether all operators of a formula are of one sort. -/
def Formula.OperatorsAre (P : Operator → Prop) (f : Formula) : Prop :=
  ∀ e, f.root = some e → e.Everywhere fun x => ∀ op, x.op? = some op → P op

/-! ## Without the rollers -/

variable {ρ σ : Type}

/-- Two contexts with the same budget and count, and with rollers that were not asked. -/
structure Unasked (roller : ρ) (roller' : σ) (ctx : Context ρ) (other : Context σ) : Prop
    extends SameCount ctx other where
  roller_eq : ctx.roller = roller
  roller_eq' : other.roller = roller'

theorem countsAlike_unasked (roller : ρ) (roller' : σ) : CountsAlike (Unasked roller roller') := by
  intro n ctx other h
  have hcharge := h.toSameCount.charge n
  rw [RollM.run_count, RollM.run_count, hcharge.isExhausted_eq]
  exact ⟨rfl, hcharge, h.roller_eq, h.roller_eq'⟩

namespace Formula

variable {f : Formula} {m : Mode} {ctx : Context ρ} {other : Context σ}

/-- Whether no operator of a formula has the roller roll dice. -/
def AsksNothing (f : Formula) : Prop :=
  ∀ e, f.root = some e → e.Everywhere fun x => ¬x.AsksRoller

/-- No operator asks the roller if none of them rolls again and the mode leaves no dice operator
that rolls. -/
theorem asksNothing_applyMode (hreroll : f.OperatorsAre fun op => op.isReroll = false)
    (hdice : (f.applyMode m).OperatorsAre fun op =>
      ∀ k, op = .binary (.dice k) → k = .average ∨ k = .maximum) :
    (f.applyMode m).AsksNothing := by
  rintro e he x hx ⟨op, hop, hasks⟩
  rcases Operator.asksRoller_cases hasks with ⟨k, rfl, hk⟩ | hagain
  · rcases hdice e he x hx _ hop k rfl with rfl | rfl <;> cases hk
  · obtain ⟨e', he', rfl⟩ := Option.map_eq_some_iff.mp he
    rw [Expr.applyMode_eq_raise, Expr.subtrees_raise] at hx
    obtain ⟨y, hy, rfl⟩ := List.mem_map.mp hx
    have hfalse : op.isReroll = false := hreroll e' he' y hy op (Expr.op?_eq_of_raise hop hagain)
    rw [hagain] at hfalse
    cases hfalse

variable [Roller ρ] [Roller σ]

theorem AsksNothing.rollsAlike {R : Context ρ → Context σ → Prop} (h : f.AsksNothing) (e : Expr)
    (he : f.root = some e) : e.Everywhere fun x => x.AsksRoller → RollsAlike R :=
  fun x hx hasks => absurd hasks (h e he x hx)

theorem AsksNothing.evaluate (h : f.AsksNothing) (hlimit : ctx.limit = other.limit) :
    (f.evaluate.run ctx).1 = (f.evaluate.run other).1 ∧
      Unasked ctx.roller other.roller (f.evaluate.run ctx).2 (f.evaluate.run other).2 :=
  f.evaluate_alike (countsAlike_unasked _ _) h.rollsAlike ⟨⟨hlimit, rfl⟩, rfl, rfl⟩

theorem AsksNothing.report (h : f.AsksNothing) (hlimit : ctx.limit = other.limit) :
    (f.report.run ctx).1 = (f.report.run other).1 :=
  (f.report_alike (countsAlike_unasked ctx.roller other.roller) h.rollsAlike
    ⟨⟨hlimit, rfl⟩, rfl, rfl⟩).1

/-- The record of an evaluation stays empty, as the roller that keeps it is left alone. -/
theorem AsksNothing.drawn_eq_zero (h : f.AsksNothing) (ctx : Context ρ) :
    (f.evaluate.run ctx.recording).2.roller.drawn = 0 := by
  obtain ⟨-, hlast⟩ := h.evaluate (rfl : ctx.recording.limit = ctx.recording.limit)
  rw [hlast.roller_eq]
  rfl

/-- Once a mode has made every dice operator one that does not roll, and if no operator rolls
again, two evaluations with the same budget have the same result, remember the same values in
every node, make the same report and count the same. They leave both rollers alone, and a record
of either would stay empty. -/
theorem applyMode_ignores_roller (hreroll : f.OperatorsAre fun op => op.isReroll = false)
    (hdice : (f.applyMode m).OperatorsAre fun op =>
      ∀ k, op = .binary (.dice k) → k = .average ∨ k = .maximum)
    (hlimit : ctx.limit = other.limit) :
    let g := f.applyMode m
    (g.evaluate.run ctx).1 = (g.evaluate.run other).1 ∧
      (g.report.run ctx).1 = (g.report.run other).1 ∧
      (g.evaluate.run ctx).2.rolled = (g.evaluate.run other).2.rolled ∧
      (g.evaluate.run ctx).2.roller = ctx.roller ∧
      (g.evaluate.run other).2.roller = other.roller ∧
      (g.evaluate.run ctx.recording).2.roller.drawn = 0 ∧
      (g.evaluate.run other.recording).2.roller.drawn = 0 := by
  intro g
  have hg : g.AsksNothing := asksNothing_applyMode hreroll hdice
  obtain ⟨hresult, hlast⟩ := hg.evaluate hlimit
  exact ⟨hresult, hg.report hlimit, hlast.rolled_eq, hlast.roller_eq, hlast.roller_eq',
    hg.drawn_eq_zero ctx, hg.drawn_eq_zero other⟩

/-- At their greatest values the dice of `3d6h2 + 1da4` come to the same, whether they would be
thrown by a script or drawn from a generator. -/
theorem applyMode_ignores_roller_of_kept_dice :
    let f : Formula := ⟨some (.binary none (.arithmetic .plus)
      (.binary none (.modifier .keepHigh)
        (.binary none (.dice .plain) (.int 3) (.int 6)) (.int 2))
      (.binary none (.dice .average) (.int 1) (.int 4)))⟩
    let g := f.applyMode (.ofKind .maximum)
    let ctx := Context.start (some 10) (⟨[2, 5, 6], .constant 1⟩ : Script)
    let other := Context.start (some 10) (Script.seeded 7)
    (f.OperatorsAre fun op => op.isReroll = false) ∧
      (g.OperatorsAre fun op => ∀ k, op = .binary (.dice k) → k = .average ∨ k = .maximum) ∧
      ctx.limit = other.limit ∧ (g.evaluate.run ctx).1 = (g.evaluate.run other).1 ∧
      (g.evaluate.run ctx).2.roller = ctx.roller ∧
      (g.evaluate.run other).2.roller = other.roller := by
  intro f g ctx other
  have hreroll : f.OperatorsAre fun op => op.isReroll = false := by
    rintro e ⟨⟩
    simp [Expr.Everywhere, Expr.subtrees, Expr.int, Expr.op?, Operator.isReroll]
  have hdice : g.OperatorsAre fun op =>
      ∀ k, op = .binary (.dice k) → k = .average ∨ k = .maximum := by
    rintro e ⟨⟩
    have hplain : DiceKind.plain.join (Mode.ofKind .maximum).kind = .maximum := rfl
    have haverage : DiceKind.average.join (Mode.ofKind .maximum).kind = .maximum := rfl
    rw [Expr.applyMode_eq_raise, Expr.everywhere_raise]
    simp [Expr.Everywhere, Expr.subtrees, Expr.int, Expr.op?, Expr.raise, BinaryOperator.raise,
      hplain, haverage]
  have hlimit : ctx.limit = other.limit := rfl
  obtain ⟨hresult, -, -, hroller, hroller', -⟩ := applyMode_ignores_roller hreroll hdice hlimit
  exact ⟨hreroll, hdice, hlimit, hresult, hroller, hroller'⟩

end Formula

end DiceNotation
