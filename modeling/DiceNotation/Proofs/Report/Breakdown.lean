import DiceNotation.Proofs.Memory.Interrupted
import DiceNotation.Proofs.Operator.Applications
import DiceNotation.Proofs.Report.Outline
import DiceNotation.Report

/-!
# Breakdowns explain totals

A breakdown shows the uppermost operators that throw dice, rework rolls or make factorials by what
they came to. What is left are operators that see a roll only through its sum, so the total can be
found again from the breakdown: it is what they make of the numbers that the shown parts add up to.

* `Operator.run_of_summed`: the operators that are left look at sums only and roll nothing.
* `Evaluates.exists_explains`: after an evaluation there is an outline that explains the value.
* `Formula.breakdown_explains_total`: the breakdown of a report is such an outline.
-/

namespace DiceNotation

/-! ## Operators that look at sums -/

namespace Value

theorem summed_of_ne_faces {v : Value} (h : ∀ f, v ≠ .faces f) : v.summed = .number v.collapse := by
  cases v with
  | number x => rfl
  | roll r => rfl
  | faces f => exact absurd rfl (h f)

end Value

namespace Operator

variable {op : Operator} {side : Side}

theorem numberOperand_congr (hside : op.sums side = true) {v w : Option Value}
    (h : v.map Value.summed = w.map Value.summed) :
    op.numberOperand side v = op.numberOperand side w := by
  cases v with
  | none =>
    cases w with
    | none => rfl
    | some w => cases h
  | some v =>
    cases w with
    | none => cases h
    | some w =>
      have hsummed : v.summed = w.summed := Option.some.inj h
      rw [numberOperand, numberOperand, operand, operand, if_pos hside, if_pos hside, hsummed]

variable {left right left' right' : Option Value} {ρ σ : Type} [Roller ρ] [Roller σ]
  {ctx last : Context ρ}

/-- An operator that binds less tightly than those that rework rolls makes the same of operands
with the same sums, in any context and without rolling. -/
theorem run_of_summed {result : Except RollError Value}
    (hop : op.precedence < modifierPrecedence)
    (hleft : left'.map Value.summed = left.map Value.summed)
    (hright : right'.map Value.summed = right.map Value.summed)
    (h : (op.apply left right).run.run ctx = (result, last)) (other : Context σ) :
    (op.apply left' right').run.run other = (result, other) := by
  cases op with
  | sign s =>
    rw [run_sign] at h ⊢
    rw [numberOperand_congr rfl hright, (Prod.mk.inj h).1]
  | factorial => exact absurd hop (by decide)
  | binary b =>
    cases b with
    | dice kind => exact absurd hop (by cases kind <;> decide)
    | modifier m => exact absurd hop (Nat.lt_irrefl _)
    | arithmetic a =>
      rw [run_arithmetic] at h ⊢
      rw [numberOperand_congr rfl hleft, numberOperand_congr rfl hright, (Prod.mk.inj h).1]
    | test t =>
      rw [run_test] at h ⊢
      rw [numberOperand_congr rfl hleft, numberOperand_congr rfl hright, (Prod.mk.inj h).1]

/-- The computation never comes to a list of faces. -/
def NoFaces (x : RollM ρ Value) : Prop := ∀ ctx f, (x.run.run ctx).1 ≠ .ok (.faces f)

omit [Roller ρ] in
theorem noFaces_number (x : Number) : NoFaces (pure (.number x) : RollM ρ Value) :=
  fun _ _ => nofun

omit [Roller ρ] in
theorem noFaces_roll (r : Roll) : NoFaces (pure (.roll r) : RollM ρ Value) := fun _ _ => nofun

omit [Roller ρ] in
theorem noFaces_ofArithmetic (result : Except ArithmeticError Number) :
    NoFaces (liftM (ofArithmetic result) : RollM ρ Value) := by
  cases result <;> exact fun _ _ => nofun

omit [Roller ρ] in
theorem NoFaces.bind {α : Type} (x : RollM ρ α) {k : α → RollM ρ Value}
    (h : ∀ a, NoFaces (k a)) : NoFaces (x >>= k) := by
  intro ctx f
  rw [RollM.run_bind]
  rcases x.run.run ctx with ⟨c | a, mid⟩
  · exact nofun
  · exact h a mid f

/-- No operator makes a list of faces. -/
theorem noFaces_apply (op : Operator) (left right : Option Value) :
    NoFaces (op.apply left right : RollM ρ Value) := by
  cases op with
  | sign s => exact .bind _ fun x => noFaces_number _
  | factorial => exact .bind _ fun x => noFaces_ofArithmetic _
  | binary b =>
    cases b with
    | dice kind => exact .bind _ fun n => .bind _ fun die => .bind _ fun r => noFaces_roll r
    | modifier m => exact .bind _ fun r => noFaces_roll r
    | arithmetic a => exact .bind _ fun x => .bind _ fun y => noFaces_ofArithmetic _
    | test t => exact .bind _ fun x => .bind _ fun y => noFaces_number _

end Operator

/-! ## Outlines that explain a value -/

/-- An outline as an expression: a closed part is a node that has its number already. -/
def Outline.toExpr : Outline Number → Expr
  | part x => .literal (some (.number x)) (.int 0)
  | literal l => .literal none l
  | sign s x => .sign none s x.toExpr
  | factorial x => .factorial none x.toExpr
  | binary b x y => .binary none b x.toExpr y.toExpr

namespace Expr

/-- A node of which the breakdown shows what it came to: it binds at least as tightly as the
operators that rework rolls. -/
def result? (e : Expr) : Option Expr :=
  if e.op?.any (modifierPrecedence ≤ ·.precedence) then some e else none

theorem outcome?_eq (e : Expr) : e.outcome? = (e.result?.bind memory).map Value.text := by
  unfold outcome? result?
  split <;> rfl

/-- The breakdown is the text of the outline of results. -/
theorem breakdown_eq {e : Expr} {o : Outline Value}
    (h : (e.outline result?).map memory = o.map some) :
    e.breakdown = (o.map Value.text).text := by
  rw [breakdown, render_eq, ← outline_of_map_eq Value.text h, funext outcome?_eq]

/-- Whether an outline explains how an expression came to a value: its closed parts are what the
uppermost results came to, and with their numbers in place the rest has the same sum. -/
structure Explains (e : Expr) (v : Value) (o : Outline Value) : Prop where
  parts : (e.outline result?).map memory = o.map some
  sum : ∀ {σ : Type} [Roller σ] (other : Context σ), ∃ w g,
    (o.map Value.collapse).toExpr.evaluate.run other = ((.ok w, g), other) ∧ w.summed = v.summed

section Evaluation

variable {ρ : Type} [Roller ρ] {ctx last : Context ρ}

/-! ### One node -/

/-- A node that is shown by its result explains itself. -/
theorem explains_result {e : Expr} {op : Operator} {v : Value} (hop : e.op? = some op)
    (hle : modifierPrecedence ≤ op.precedence) (hm : e.memory = some v)
    (hv : ∀ f, v ≠ .faces f) : Explains e v (.part v) where
  parts := by
    have hresult : e.result? = some e := by
      rw [result?, hop]
      exact if_pos (decide_eq_true hle)
    rw [outline_of_some hresult, Outline.map, hm]
    rfl
  sum other := by
    refine ⟨.number v.collapse, _, evaluate_of_memory rfl other, ?_⟩
    rw [Value.summed_of_ne_faces hv]
    rfl

theorem explains_literal (l : Literal) :
    Explains (literal (some l.toValue) l) l.toValue (.literal l) where
  parts := by
    rw [outline_literal rfl]
    rfl
  sum other := ⟨l.toValue, _, rfl, rfl⟩

theorem result?_eq_none {e : Expr} {op : Operator} (hop : e.op? = some op)
    (hlt : op.precedence < modifierPrecedence) : e.result? = none := by
  rw [result?, hop]
  refine if_neg ?_
  rw [Option.any_some, decide_eq_true_iff]
  exact Nat.not_le.mpr hlt

theorem sign_lt_modifier (s : Sign) : (Operator.sign s).precedence < modifierPrecedence := by
  cases s <;> decide

theorem Explains.sign {s : Sign} {x : Expr} {v u : Value} {o : Outline Value}
    (h : Explains x v o)
    (happly : ((Operator.sign s).apply none (some v)).run.run ctx = (.ok u, last)) :
    Explains (sign (some u) s x) u (.sign s o) where
  parts := by
    rw [outline_sign (result?_eq_none rfl (sign_lt_modifier s)), Outline.map, h.parts]
    rfl
  sum other := by
    obtain ⟨w, g, hw, hsum⟩ := h.sum other
    have hsums : (some w).map Value.summed = (some v).map Value.summed := congrArg some hsum
    have hrun := Operator.run_of_summed (sign_lt_modifier s) rfl hsums happly other
    exact ⟨u, _, run_evaluate_sign hw hrun, rfl⟩

theorem Explains.binary {b : BinaryOperator} {x y : Expr} {v w u : Value} {o p : Outline Value}
    (hb : (Operator.binary b).precedence < modifierPrecedence) (hx : Explains x v o)
    (hy : Explains y w p)
    (happly : ((Operator.binary b).apply (some v) (some w)).run.run ctx = (.ok u, last)) :
    Explains (binary (some u) b x y) u (.binary b o p) where
  parts := by
    rw [outline_binary (result?_eq_none rfl hb), Outline.map, hx.parts, hy.parts]
    rfl
  sum other := by
    obtain ⟨v', g, hv, hleft⟩ := hx.sum other
    obtain ⟨w', g', hw, hright⟩ := hy.sum other
    have hlefts : (some v').map Value.summed = (some v).map Value.summed := congrArg some hleft
    have hrights : (some w').map Value.summed = (some w).map Value.summed := congrArg some hright
    have hrun := Operator.run_of_summed hb hlefts hrights happly other
    exact ⟨u, _, run_evaluate_binary hv hw hrun, rfl⟩

/-! ### Whole trees -/

theorem ne_faces_of_run {op : Operator} {left right : Option Value} {v : Value}
    (h : (op.apply left right).run.run ctx = (.ok v, last)) : ∀ f, v ≠ .faces f := by
  rintro f rfl
  have hfaces := op.noFaces_apply left right ctx f
  rw [h] at hfaces
  exact hfaces rfl

/-- What an expression without memory is evaluated to is explained by an outline. -/
theorem Evaluates.exists_explains {e e' : Expr} {result : Except RollError Value}
    (h : Evaluates e ctx result e' last) (he : e.clear = e) {v : Value} (hv : result = .ok v) :
    ∃ o, Explains e' v o := by
  induction h generalizing v with
  | @remembered e w ctx hm =>
    rw [← he, memory_clear] at hm
    cases hm
  | literal l ctx =>
    cases hv
    exact ⟨_, explains_literal l⟩
  | sign _ happly ih =>
    subst hv
    obtain ⟨o, ho⟩ := ih (sign.inj he).2.2 rfl
    exact ⟨_, ho.sign happly⟩
  | factorial _ happly _ =>
    subst hv
    exact ⟨_, explains_result rfl (by decide) rfl (ne_faces_of_run happly)⟩
  | @binary b _ _ _ _ _ _ _ _ _ _ _ _ _ happly ihx ihy =>
    subst hv
    rcases Nat.lt_or_ge b.precedence modifierPrecedence with hb | hb
    · obtain ⟨-, -, hx, hy⟩ := binary.inj he
      obtain ⟨o, ho⟩ := ihx hx rfl
      obtain ⟨p, hp⟩ := ihy hy rfl
      exact ⟨_, ho.binary hb hp happly⟩
    · exact ⟨_, explains_result rfl hb rfl (ne_faces_of_run happly)⟩
  | signFails | factorialFails | leftFails | rightFails => cases hv

end Evaluation

end Expr

/-! ## Reports -/

namespace Formula

variable {ρ : Type} [Roller ρ]

/-- The breakdown of a report is written like the formula itself, but as an outline in which the
uppermost results are closed up and shown as what they came to. With the numbers that these add up
to in their places, the rest of the formula is evaluated to the total, in any context, without
rolling. -/
theorem breakdown_explains_total {f f' : Formula} {r : Report} {ctx last : Context ρ}
    (hf : f.clear = f) (h : f.report.run ctx = ((.ok r, f'), last)) :
    f'.clear = f ∧ (f.root = none → r = ⟨"", .zero⟩) ∧
      ∀ e, f'.root = some e → e.text = (e.outline fun _ => none).text ∧ ∃ o : Outline Value,
        (e.outline Expr.result?).map Expr.memory = o.map some ∧
        r.breakdown = (o.map Value.text).text ∧
        ∀ {σ : Type} [Roller σ] (other : Context σ), ∃ g,
          (Formula.mk (some (o.map Value.collapse).toExpr)).evaluate.run other =
            ((.ok r.total, g), other.reset) := by
  rcases f.evaluate_cases ctx with ⟨hroot, hrun⟩ | ⟨e, found, e', last', hroot, he, hrun⟩
  · cases (report_of_evaluate hrun).symm.trans h
    have hblank : f.breakdown = "" := by
      rw [breakdown, hroot]
      rfl
    refine ⟨hf, fun _ => by rw [hblank], fun e he => ?_⟩
    rw [hroot] at he
    cases he
  · have hreport := (report_of_evaluate hrun).symm.trans h
    cases found with
    | error c => cases hreport
    | ok v =>
      cases hreport
      have hclear : e.clear = e := by
        have hrootclear : f.clear.root = f.root := congrArg root hf
        rw [clear, hroot] at hrootclear
        exact Option.some.inj hrootclear
      refine ⟨?_, fun hnone => ?_, ?_⟩
      · rw [clear, Option.map_some, he.clear_eq, hclear, ← hroot]
      · rw [hroot] at hnone
        cases hnone
      · rintro x ⟨⟩
        obtain ⟨o, ho⟩ := he.exists_explains hclear rfl
        refine ⟨Expr.text_eq_outline e', o, ho.parts, Expr.breakdown_eq ho.parts, fun other => ?_⟩
        obtain ⟨w, g, hw, hsum⟩ := ho.sum other.reset
        have htotal : w.collapse = v.collapse := by
          rw [← w.collapse_summed, hsum, v.collapse_summed]
        refine ⟨⟨some g⟩, ?_⟩
        rw [evaluate_of_root rfl hw, Except.map, htotal]

/-- In `-(2d6h1-1)*3` the dice are part of what `h` came to, and the subtraction keeps its
parentheses. -/
theorem breakdown_explains_total_of_kept_dice :
    let f : Formula := ⟨some (.binary none (.arithmetic .times)
      (.sign none .minus (.binary none (.arithmetic .minus)
        (.binary none (.modifier .keepHigh)
          (.binary none (.dice .plain) (.int 2) (.int 6)) (.int 1)) (.int 1))) (.int 3))⟩
    let run := f.report.run (Context.start (some 10) (⟨[2, 5], .constant 1⟩ : Script))
    let kept := (Roll.of [.int 2, .int 5] (.sides ⟨6, by decide, by decide⟩)).keepHigh 1
    let r : Report := ⟨"-(" ++ kept.text ++ "-1)*3", -(kept.sum - .int 1) * .int 3⟩
    f.clear = f ∧ run.1.1 = .ok r ∧ run.1.2.clear = f ∧
      ∀ e, run.1.2.root = some e → e.text = (e.outline fun _ => none).text ∧ ∃ o : Outline Value,
        (e.outline Expr.result?).map Expr.memory = o.map some ∧
        r.breakdown = (o.map Value.text).text ∧
        ∀ other : Context Script, ∃ g,
          (Formula.mk (some (o.map Value.collapse).toExpr)).evaluate.run other =
            ((.ok r.total, g), other.reset) := by
  intro f run kept r
  have hf : f.clear = f := rfl
  have hwritten : run.1.2.breakdown = r.breakdown := by
    change "-" ++ ("(" ++ (kept.text ++ "-" ++ "1") ++ ")") ++ "*" ++ "3" =
      "-(" ++ kept.text ++ "-1)*3"
    simp only [String.append_assoc]
    rfl
  have hreport : run.1.1 = .ok r := by
    change Except.ok (Report.mk run.1.2.breakdown r.total) = .ok r
    rw [hwritten]
  have hrun : run = ((.ok r, run.1.2), run.2) :=
    congrArg (fun result => ((result, run.1.2), run.2)) hreport
  obtain ⟨hclear, -, hexplains⟩ := breakdown_explains_total hf hrun
  refine ⟨hf, hreport, hclear, fun e he => ?_⟩
  obtain ⟨htext, o, hparts, hbreakdown, htotal⟩ := hexplains e he
  exact ⟨htext, o, hparts, hbreakdown, fun other => htotal other⟩

end Formula

end DiceNotation
