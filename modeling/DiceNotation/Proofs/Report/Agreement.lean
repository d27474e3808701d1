import DiceNotation.Proofs.Evaluation.Cases
import DiceNotation.Proofs.Mode.Rewriting
import DiceNotation.Proofs.Number.Sums
import DiceNotation.Proofs.Operator.Applications
import DiceNotation.Rollable

/-!
# Totals and reports

A total is rolled first and the modifier added afterwards. For a report the modifier is written
above the root and evaluated with the rest. Either way the same dice are rolled, and both come to
the same end, with one exception: a list of faces has a sum but is no operand of a sum.

* `Formula.applyMode_addModifier`: a mode takes no notice of the modifier.
* `Formula.outcome_addModifier`: the modifier meets the value of the root.
* `Rollable.total_agrees_report`: where total and report agree, and where they do not.
-/

namespace DiceNotation

/-! ## The mode and the modifier -/

namespace Expr

theorem raise_arithmetic (kind : DiceKind) (a : Arithmetic) (x y : Expr) :
    (binary none (.arithmetic a) x y).raise kind =
      binary none (.arithmetic a) (x.raise kind) (y.raise kind) :=
  raise_binary (.arithmetic a) x y kind

theorem raise_int (kind : DiceKind) (n : Int64) : (int n).raise kind = int n := rfl

theorem applyMode_arithmetic (mode : Mode) (a : Arithmetic) (x y : Expr) :
    (binary none (.arithmetic a) x y).applyMode mode =
      binary none (.arithmetic a) (x.applyMode mode) (y.applyMode mode) := by
  simp only [applyMode_eq_foldl]
  induction mode.kinds generalizing x y with
  | nil => rfl
  | cons kind kinds ih =>
    rw [List.foldl_cons, raise_arithmetic, ih, List.foldl_cons, List.foldl_cons]

theorem applyMode_int (mode : Mode) (n : Int64) : (int n).applyMode mode = int n := by
  rw [applyMode_eq_foldl]
  induction mode.kinds with
  | nil => rfl
  | cons kind kinds ih => rw [List.foldl_cons, raise_int, ih]

end Expr

namespace Formula

theorem rootOrZero_applyMode (f : Formula) (mode : Mode) :
    (f.applyMode mode).rootOrZero = f.rootOrZero.applyMode mode := by
  cases f with
  | mk root =>
    cases root with
    | none => exact (Expr.applyMode_int mode 0).symm
    | some e => rfl

/-- A mode takes no notice of the modifier. -/
theorem applyMode_addModifier (f : Formula) (mode : Mode) (m : Int64) :
    (f.addModifier m).applyMode mode = (f.applyMode mode).addModifier m := by
  unfold addModifier
  split
  · rfl
  · change Formula.mk (some ((Expr.binary none _ f.rootOrZero (.int _)).applyMode mode)) =
      ⟨some (.binary none _ (f.applyMode mode).rootOrZero (.int _))⟩
    rw [Expr.applyMode_arithmetic, Expr.applyMode_int, rootOrZero_applyMode]

end Formula

/-! ## The value and the modifier -/

/-- The operator that a modifier is written with. -/
def Formula.modifierOperator (m : Int64) : Operator := .binary (.arithmetic (modifierParts m).1)

namespace Value

/-- A value with a modifier written after it. -/
def modified (m : Int64) (v : Value) : Except RollError Value := do
  let x ← (Formula.modifierOperator m).numberOperand .left (some v)
  return .number (x + .int m)

theorem modified_faces (m : Int64) (f : Faces) :
    (faces f).modified m =
      .error (.wrongOperand (Formula.modifierOperator m) .number (.faces f)) := by
  rw [modified, Operator.numberOperand_faces]
  rfl

theorem modified_of_ne_faces {v : Value} (h : ∀ f, v ≠ .faces f) (m : Int64) :
    v.modified m = .ok (.number (v.collapse + .int m)) := by
  rw [modified, Operator.numberOperand_of_sums _ _ rfl h]
  rfl

end Value

/-! ## Evaluation under a modifier -/

section Evaluation

variable {ρ : Type} [Roller ρ]

/-- An expression that is combined with a number is evaluated first. -/
theorem Expr.outcome_arithmetic (a : Arithmetic) (x : Expr) (n : Int64) (ctx : Context ρ) :
    (binary none (.arithmetic a) x (int n)).outcome ctx =
      ((x.outcome ctx).1 >>= fun v =>
        (Operator.binary (.arithmetic a)).numberOperand .left (some v) >>= fun c =>
          ofArithmetic (a.calculate c (.int n)), (x.outcome ctx).2) := by
  rw [outcome_binary]
  rcases x.outcome ctx with ⟨_ | v, last⟩
  · rfl
  · change ((Operator.binary (.arithmetic a)).apply (some v)
      (some (.number (.int n)))).run.run last = _
    rw [Operator.run_arithmetic]
    rfl

namespace Formula

theorem outcome_report (f : Formula) (ctx : Context ρ) :
    ((f.report.run ctx).1.1.map Report.total, (f.report.run ctx).2) =
      ((f.outcome ctx).1.map Value.collapse, (f.outcome ctx).2) := by
  rw [← outcome_evaluate, report, StateT.run_bind]
  generalize f.evaluate.run ctx = run
  rcases run with ⟨⟨_ | x, g⟩, last⟩ <;> rfl

/-- The modifier meets the value of the root. -/
theorem outcome_addModifier {m : Int64} (h : m ≠ 0) (f : Formula) (ctx : Context ρ) :
    (f.addModifier m).outcome ctx =
      ((f.outcome ctx).1 >>= Value.modified m, (f.outcome ctx).2) := by
  have hroot : (f.addModifier m).rootOrZero =
      .binary none (.arithmetic (modifierParts m).1) f.rootOrZero (.int (modifierParts m).2) := by
    rw [addModifier, if_neg h]
    rfl
  rw [outcome, hroot, Expr.outcome_arithmetic]
  simp only [calculate_modifierParts, ofArithmetic]
  rfl

end Formula

end Evaluation

/-! ## The two ways to roll -/

/-- Two ways to roll end the same: they fail for the same reason, or with totals that agree. -/
inductive SameEnd : Except RollError Number → Except RollError Number → Prop where
  | failure (c : RollError) : SameEnd (.error c) (.error c)
  | success {x y : Number} : x.Agrees y → SameEnd (.ok x) (.ok y)

theorem sameEnd_zero (result : Except RollError Value) :
    SameEnd (result.map fun v => v.collapse + .int 0) (result.map Value.collapse) := by
  cases result with
  | error c => exact .failure c
  | ok v => exact .success (Number.agrees_add_zero v.collapse)

theorem sameEnd_modifier {result : Except RollError Value}
    (h : ∀ faces, result ≠ .ok (.faces faces)) (m : Int64) :
    SameEnd (result.map fun v => v.collapse + .int m)
      ((result >>= Value.modified m).map Value.collapse) := by
  cases result with
  | error c => exact .failure c
  | ok v =>
    have hv : ∀ faces, v ≠ .faces faces := fun faces hfaces => h faces (congrArg Except.ok hfaces)
    change SameEnd _ ((v.modified m).map _)
    rw [Value.modified_of_ne_faces hv]
    exact .success (Number.agrees_refl _)

theorem eq_error_of_total {reported : Except RollError Report} {c : RollError}
    (h : reported.map Report.total = .error c) : reported = .error c := by
  cases reported with
  | error c' =>
    cases h
    rfl
  | ok report => cases h

namespace Rollable

variable {ρ : Type} [Roller ρ] {r : Rollable}

/-- The value behind the total. -/
def value (r : Rollable) (mode : Mode) (ctx : Context ρ) : Except RollError Value := do
  let f ← r.toFormula
  ((f.applyMode mode).outcome ctx).1

theorem run_total (h : ∀ x, r ≠ .number x) (mode : Mode) (m : Int64) (ctx : Context ρ) :
    (r.total mode m).run.run ctx =
      match r.toFormula with
      | .error c => (.error c, ctx)
      | .ok f =>
        (((f.applyMode mode).outcome ctx).1.map fun v => v.collapse + .int m,
          ((f.applyMode mode).outcome ctx).2) := by
  unfold total
  split
  · exact absurd rfl (h _)
  · simp only [RollM.run_bind, RollM.run_liftM, RollM.run_liftState]
    cases r.toFormula with
    | error c => rfl
    | ok f =>
      have houtcome := (f.applyMode mode).outcome_evaluate ctx
      obtain ⟨hresult, hlast⟩ := Prod.mk.inj houtcome
      simp only [hresult, hlast]
      cases ((f.applyMode mode).outcome ctx).1 <;> rfl

theorem run_report (mode : Mode) (m : Int64) (ctx : Context ρ) :
    (((r.report mode m).run.run ctx).1.map Report.total, ((r.report mode m).run.run ctx).2) =
      match r.toFormula with
      | .error c => (.error c, ctx)
      | .ok f =>
        ((((f.applyMode mode).addModifier m).outcome ctx).1.map Value.collapse,
          (((f.applyMode mode).addModifier m).outcome ctx).2) := by
  unfold report compile
  simp only [RollM.run_bind, RollM.run_liftM, RollM.run_liftState]
  cases r.toFormula with
  | error c => rfl
  | ok f =>
    simp only [← Formula.applyMode_addModifier]
    exact ((f.addModifier m).applyMode mode).outcome_report ctx

/-- Total and report leave the same context behind and end the same, unless the modifier would
have to be added to a list of faces. -/
theorem total_agrees_report (h : ∀ x, r ≠ .number x) (mode : Mode) (m : Int64) (ctx : Context ρ) :
    ((r.total mode m).run.run ctx).2 = ((r.report mode m).run.run ctx).2 ∧
    (m = 0 ∨ (∀ faces, r.value mode ctx ≠ .ok (.faces faces)) →
      SameEnd ((r.total mode m).run.run ctx).1
        (((r.report mode m).run.run ctx).1.map Report.total)) ∧
    ∀ faces, m ≠ 0 → r.value mode ctx = .ok (.faces faces) →
      ((r.total mode m).run.run ctx).1 = .ok (faces.sum + .int m) ∧
      ((r.report mode m).run.run ctx).1 =
        .error (.wrongOperand (Formula.modifierOperator m) .number (.faces faces)) := by
  have htotal := r.run_total h mode m ctx
  have hreport := r.run_report mode m ctx
  cases hf : r.toFormula with
  | error c =>
    simp only [hf] at htotal hreport
    obtain ⟨hresult, hlast⟩ := Prod.mk.inj hreport
    have hvalue : r.value mode ctx = .error c := by
      rw [value, hf]
      rfl
    rw [htotal, hresult, hlast, hvalue]
    exact ⟨rfl, fun _ => .failure c, nofun⟩
  | ok f =>
    have hvalue : r.value mode ctx = ((f.applyMode mode).outcome ctx).1 := by
      rw [value, hf]
      rfl
    by_cases hm : m = 0
    · subst hm
      simp only [hf] at htotal hreport
      obtain ⟨hresult, hlast⟩ := Prod.mk.inj hreport
      rw [htotal, hresult, hlast]
      exact ⟨rfl, fun _ => sameEnd_zero _, fun _ hne => absurd rfl hne⟩
    · simp only [hf, Formula.outcome_addModifier hm] at htotal hreport
      obtain ⟨hresult, hlast⟩ := Prod.mk.inj hreport
      rw [htotal, hresult, hlast, hvalue]
      refine ⟨rfl, fun hcase => sameEnd_modifier (hcase.resolve_left hm) m, ?_⟩
      intro faces _ hfaces
      rw [hfaces] at hresult ⊢
      have hfails := hresult.trans
        (congrArg (Except.map Value.collapse) (Value.modified_faces m faces))
      exact ⟨rfl, eq_error_of_total hfails⟩

/-- `1d6` with the modifier -1 comes to the same number both ways; `[1, 2, 3]` with the modifier 2
makes 8 and no report. -/
theorem total_agrees_report_dice_and_faces :
    let dice := tokens [.int 1, .op (.binary (.dice .plain)), .int 6]
    let list : Faces := ⟨[.int 1, .int 2, .int 3], by simp⟩
    let ctx := Context.start (some 1) (⟨[5], .constant 1⟩ : Script)
    (∀ faces, dice.value .normal ctx ≠ .ok (.faces faces)) ∧
    SameEnd ((dice.total .normal (-1)).run.run ctx).1
      (((dice.report .normal (-1)).run.run ctx).1.map Report.total) ∧
    (tokens [.faces list]).value .normal ctx = .ok (.faces list) ∧
    (((tokens [.faces list]).total .normal 2).run.run ctx).1 = .ok (list.sum + .int 2) ∧
    (((tokens [.faces list]).report .normal 2).run.run ctx).1 =
      .error (.wrongOperand (Formula.modifierOperator 2) .number (.faces list)) := by
  intro dice list ctx
  have hdice : ∀ faces, dice.value .normal ctx ≠ .ok (.faces faces) := nofun
  have hlist : (tokens [.faces list]).value .normal ctx = .ok (.faces list) := rfl
  have hagree := (total_agrees_report (r := dice) nofun .normal (-1) ctx).2.1
  have hdisagree := (total_agrees_report (r := tokens [.faces list]) nofun .normal 2 ctx).2.2
  exact ⟨hdice, hagree (.inr hdice), hlist, hdisagree list (by decide) hlist⟩

/-- Without the exception for lists of faces it would not be true. -/
theorem total_disagrees_report_faces :
    ¬∀ (r : Rollable) (mode : Mode) (m : Int64) (ctx : Context Script), (∀ x, r ≠ .number x) →
      SameEnd ((r.total mode m).run.run ctx).1
        (((r.report mode m).run.run ctx).1.map Report.total) ∧
      ((r.total mode m).run.run ctx).2 = ((r.report mode m).run.run ctx).2 := by
  intro hall
  let list : Faces := ⟨[.int 1, .int 2, .int 3], by simp⟩
  let ctx := Context.start (some 1) (⟨[5], .constant 1⟩ : Script)
  have htotal : (((tokens [.faces list]).total .normal 2).run.run ctx).1 = .ok (.int 8) := rfl
  have hreport : (((tokens [.faces list]).report .normal 2).run.run ctx).1 =
      .error (.wrongOperand .plus .number (.faces list)) := rfl
  obtain ⟨hsame, -⟩ := hall (tokens [.faces list]) .normal 2 ctx nofun
  rw [htotal, hreport] at hsame
  cases hsame

end Rollable

end DiceNotation
