import DiceNotation.Proofs.Formula.RoundTrip
import DiceNotation.Proofs.Memory.Reachable
import DiceNotation.Proofs.Report.Regrouping
import DiceNotation.Proofs.Report.Sums

/-!
# Reports as equations

A report is written as an equation of its breakdown and its total. For a sum of two reports, the
breakdown is read as another expression than the two that were evaluated: the terms of a sum behind
the plus sign are added one after the other, and a test takes the sum as its operand. So the
equation may be wrong, and for integers it is known when.

* `Report.ComesTo`, `Report.StatesTotal`: what a breakdown comes to, and whether it is the total.
* `Formula.statesTotal_add_iff`: when the sum of two reports states its total.
-/

namespace DiceNotation

theorem Expr.text_ne_empty {e : Expr} (h : ∀ l ∈ e.literals, l.isPlain = true) :
    e.text ≠ "" := by
  obtain ⟨c, rest, hcs, -⟩ := beginsOperand_text e h
  intro hempty
  rw [hempty] at hcs
  cases hcs

/-! ## Reports that state their totals -/

namespace Report

/-- The breakdown is read as a formula that comes to a number, whatever is rolled. -/
def ComesTo (r : Report) (x : Number) : Prop :=
  ∃ f, Formula.ofText r.breakdown.toList = .ok f ∧
    ∀ ⦃ρ : Type⦄ [Roller ρ] (ctx : Context ρ), (f.evaluate.run ctx).1.1 = .ok x

/-- The equation as which the report is written is true. -/
def StatesTotal (r : Report) : Prop := r.ComesTo r.total

variable {r : Report} {e : Expr} {x y : Number}

theorem ComesTo.unique (hx : r.ComesTo x) (hy : r.ComesTo y) : x = y := by
  obtain ⟨f, hf, hrun⟩ := hx
  obtain ⟨g, hg, hrun'⟩ := hy
  cases hf.symm.trans hg
  let ctx : Context Script := Context.start none ⟨[], .constant 1⟩
  exact Except.ok.inj ((hrun ctx).symm.trans (hrun' ctx))

/-! ### Breakdowns that are texts of expressions -/

theorem comesTo_of_text (htext : r.breakdown = e.text)
    (hplain : ∀ l ∈ e.literals, l.isPlain = true) (hd : e.depth ≤ maxDepth)
    (h : e.CalculatesTo x) : r.ComesTo x := by
  refine ⟨⟨some e.clear⟩, ?_, fun ρ _ ctx => ?_⟩
  · rw [htext, (Formula.reads_text hplain).1 hd]
  · obtain ⟨g, hg⟩ := h ctx.reset
    rw [Formula.evaluate_of_root rfl hg]
    rfl

theorem statesTotal_iff (htext : r.breakdown = e.text)
    (hplain : ∀ l ∈ e.literals, l.isPlain = true) (h : e.CalculatesTo x) :
    r.StatesTotal ↔ e.depth ≤ maxDepth ∧ x = r.total := by
  rcases Nat.lt_or_ge maxDepth e.depth with hd | hd
  · refine iff_of_false ?_ fun hboth => Nat.not_le.mpr hd hboth.1
    rintro ⟨f, hf, -⟩
    obtain ⟨i, hi⟩ := (Formula.reads_text hplain).2 hd
    rw [htext, hi] at hf
    cases hf
  · have hcomes := comesTo_of_text htext hplain hd h
    refine ⟨fun hstates => ⟨hd, hcomes.unique hstates⟩, ?_⟩
    rintro ⟨-, rfl⟩
    exact hcomes

end Report

namespace Formula

variable {ρ σ : Type} [Roller ρ] [Roller σ]

/-- The formula was reported on, only calculated, and came to an integer at every node. -/
structure ReportsIntegers (f : Formula) (ctx : Context ρ) (r : Report) (e : Expr) : Prop where
  settled : f.Settled
  run : (f.report.run ctx).1 = (.ok r, ⟨some e⟩)
  integers : e.Everywhere fun x => x.IsCalculation ∧ x.HasInteger

theorem ReportsIntegers.calculated {f : Formula} {ctx : Context ρ} {r : Report} {e : Expr}
    (h : f.ReportsIntegers ctx r e) : e.Calculated ∧ r = ⟨e.text, .int e.amount⟩ := by
  have hrun := h.run
  rcases f.evaluate_cases ctx with ⟨hroot, heval⟩ | ⟨e₀, result, e', last, hroot, he, heval⟩
  · rw [report_of_evaluate heval, Prod.mk.injEq] at hrun
    have hsome : f.root = some e := congrArg root hrun.2
    cases hroot.symm.trans hsome
  · rw [report_of_evaluate heval, Prod.mk.injEq] at hrun
    obtain ⟨hreport, htree⟩ := hrun
    obtain rfl : e' = e := Option.some.inj (congrArg root htree)
    have hsettled := he.settled (h.settled e₀ hroot)
    have hcalculated : e'.Calculated := fun x hx => ⟨hsettled x hx, h.integers x hx⟩
    have hmemory := he.memory_eq.symm.trans hcalculated.memory_eq
    cases result with
    | error c => cases hmemory
    | ok v =>
      obtain rfl := Option.some.inj hmemory
      refine ⟨hcalculated, ?_⟩
      rw [← hcalculated.breakdown_eq]
      exact (Except.ok.inj hreport).symm

theorem reportsIntegers_of_calculated {e : Expr} (h : e.Calculated) (ctx : Context ρ) :
    (Formula.mk (some e.clear)).ReportsIntegers ctx ⟨e.text, .int e.amount⟩ e where
  settled := by
    rintro _ ⟨⟩
    exact e.settled_clear
  run := by
    rw [report_of_evaluate (evaluate_of_root rfl (h.evaluate_clear ctx.reset))]
    change (Except.ok (Report.mk e.breakdown (.int e.amount)), _) = _
    rw [h.breakdown_eq]
  integers x hx := (h x hx).2

section Sums

variable {f g : Formula} {ctx : Context ρ} {other : Context σ} {r s : Report} {x y : Expr}

theorem breakdown_add_eq_text (hx : ∀ l ∈ x.literals, l.isPlain = true) (k m : Number) :
    (Report.mk x.text k + Report.mk y.text m).breakdown = (x.regrouped y).text := by
  rw [Report.breakdown_add (Expr.text_ne_empty hx), Expr.text_regrouped]

theorem plain_regrouped (hx : ∀ l ∈ x.literals, l.isPlain = true)
    (hy : ∀ l ∈ y.literals, l.isPlain = true) :
    ∀ l ∈ (x.regrouped y).literals, l.isPlain = true := by
  rw [Expr.literals_regrouped]
  exact List.forall_mem_append.mpr ⟨hx, hy⟩

/-- The sum of two reports on integers that are written without signs of their own is read as the
regrouped sum and comes to its total, unless it is too deep. If the total of the reports is an
integer and no test is at a root, the equation is true exactly if no total on the way leaves the
64-bit range: that of the first expression and the first few terms of the second one. With a test at
a root, the breakdown comes to the truth value of the test that has the sum as an operand. -/
theorem statesTotal_add_iff (hf : f.ReportsIntegers ctx r x) (hg : g.ReportsIntegers other s y)
    (hx : ∀ l ∈ x.literals, l.isPlain = true) (hy : ∀ l ∈ y.literals, l.isPlain = true)
    {n : Int64} (hn : (r + s).total = .int n) :
    (maxDepth < (x.regrouped y).depth →
      ∃ i, ofText (r + s).breakdown.toList = .error (.tooDeep i)) ∧
    ((x.regrouped y).depth ≤ maxDepth → (r + s).ComesTo (x.regroupedTotal y)) ∧
    (¬x.IsTest → ¬y.IsTest → ((r + s).StatesTotal ↔ (x.regrouped y).depth ≤ maxDepth ∧
      ∀ first, first <+: y.terms → FitsInt64 (x.amount.toInt + (first.map Term.effect).sum))) ∧
    (x.IsTest ∨ y.IsTest → ∃ b, x.regroupedTotal y = .ofBool b) := by
  obtain ⟨hcx, rfl⟩ := hf.calculated
  obtain ⟨hcy, rfl⟩ := hg.calculated
  have htext := breakdown_add_eq_text hx (y := y) (.int x.amount) (.int y.amount)
  have hplain := plain_regrouped hx hy
  have hcalculates := Expr.calculatesTo_regrouped hcx hcy
  refine ⟨fun hd => ?deep, fun hd => ?total, fun hnotx hnoty => ?sums,
    Expr.exists_regroupedTotal_eq_ofBool⟩
  case deep =>
    rw [htext]
    exact (reads_text hplain).2 hd
  case total => exact Report.comesTo_of_text htext hplain hd hcalculates
  case sums =>
    have hsum : x.amount.toInt + y.amount.toInt = n.toInt := Number.int_add_int_eq_int_iff.mp hn
    have htotal := Number.foldl_eq_int_iff Term.addTo_float Term.addTo_int_eq_int_iff
      y.terms x.amount n
    rw [hcy.sum_effects, and_iff_left hsum] at htotal
    rw [Report.statesTotal_iff htext hplain hcalculates, hn,
      Expr.regroupedTotal_of_not_isTest x hnoty, Expr.followedTotal_of_not_isTest hnotx, htotal]

end Sums

/-- The second expression has three terms, of which the second one is subtracted. -/
theorem statesTotal_add_iff_three_terms :
    let start : Context Script := Context.start none ⟨[], .constant 1⟩
    let x : Expr := .sign (some (.number (.int (-8)))) .minus
      (.binary (some (.number (.int 8))) (.arithmetic .power) (.counted 2) (.counted 3))
    let y : Expr := .binary (some (.number (.int 3))) (.arithmetic .plus)
      (.binary (some (.number (.int 2))) (.arithmetic .minus) (.counted 10)
        (.binary (some (.number (.int 8))) (.arithmetic .times) (.counted 4) (.counted 2)))
      (.counted 1)
    let r : Report := ⟨"-2^3", .int (-8)⟩
    let s : Report := ⟨"10-4*2+1", .int 3⟩
    (Formula.mk (some x.clear)).ReportsIntegers start r x ∧
      (Formula.mk (some y.clear)).ReportsIntegers start s y ∧
      (∀ l ∈ x.literals, l.isPlain = true) ∧ (∀ l ∈ y.literals, l.isPlain = true) ∧
      (r + s).breakdown = "-2^3+10-4*2+1" ∧ (r + s).total = .int (-5) ∧ (r + s).StatesTotal := by
  intro start x y r s
  have hcx : x.Calculated :=
    .sign (.binary (by decide) (Expr.calculated_counted 2) (Expr.calculated_counted 3) start rfl)
      start rfl
  have hcy : y.Calculated :=
    .binary (by decide)
      (.binary (by decide) (Expr.calculated_counted 10)
        (.binary (by decide) (Expr.calculated_counted 4) (Expr.calculated_counted 2) start rfl)
        start rfl)
      (Expr.calculated_counted 1) start rfl
  have hf : (Formula.mk (some x.clear)).ReportsIntegers start r x :=
    reportsIntegers_of_calculated hcx start
  have hg : (Formula.mk (some y.clear)).ReportsIntegers start s y :=
    reportsIntegers_of_calculated hcy start
  have hx : ∀ l ∈ x.literals, l.isPlain = true := by decide
  have hy : ∀ l ∈ y.literals, l.isPlain = true := by decide
  have htotal : (r + s).total = .int (-5) := rfl
  have hnotx : ¬x.IsTest := by decide
  have hnoty : ¬y.IsTest := by decide
  have hfits : ∀ first, first <+: y.terms →
      FitsInt64 (x.amount.toInt + (first.map Term.effect).sum) := by
    intro first hfirst
    have hterms : y.terms = [⟨.plus, .counted 10⟩, ⟨.minus, .binary (some (.number (.int 8)))
        (.arithmetic .times) (.counted 4) (.counted 2)⟩, ⟨.plus, .counted 1⟩] := rfl
    simp only [hterms, List.prefix_cons_iff, List.prefix_nil] at hfirst
    rcases hfirst with rfl | ⟨_, rfl, rfl | ⟨_, rfl, rfl | ⟨_, rfl, rfl⟩⟩⟩
    · exact ⟨-8, rfl⟩
    · exact ⟨2, rfl⟩
    · exact ⟨-6, rfl⟩
    · exact ⟨-5, rfl⟩
  obtain ⟨-, -, hsums, -⟩ := statesTotal_add_iff hf hg hx hy htotal
  have hstates := (hsums hnotx hnoty).mpr ⟨by decide, hfits⟩
  exact ⟨hf, hg, hx, hy, by decide, htotal, hstates⟩

/-! ## Sums that are not stated -/

/-- The formulas are reported on as integers with an integer sum, which the breakdown of the sum of
the reports does not come to. -/
def MisstatesSum (f g : Formula) : Prop :=
  ∃ (ctx : Context Script) (r s : Report) (x y : Expr) (n : Int64), f.ReportsIntegers ctx r x ∧
    g.ReportsIntegers ctx s y ∧ (r + s).total = .int n ∧ ¬(r + s).StatesTotal

section Misstated

variable {x y e : Expr} {k : Number} {n : Int64} (hcx : x.Calculated) (hcy : y.Calculated)
  (hn : x.amount.toInt + y.amount.toInt = n.toInt)

include hcx hcy hn

/-- The breakdown is the text of an expression that is too deep or comes to something else. -/
theorem misstatesSum (htext : Report.joinBreakdowns x.text y.text = e.text)
    (hplain : ∀ l ∈ e.literals, l.isPlain = true) (he : e.CalculatesTo k)
    (h : e.depth ≤ maxDepth → k ≠ .int n) : MisstatesSum ⟨some x.clear⟩ ⟨some y.clear⟩ := by
  have htotal : (.int x.amount + .int y.amount : Number) = .int n :=
    Number.int_add_int_eq_int_iff.mpr hn
  let ctx : Context Script := Context.start none ⟨[], .constant 1⟩
  refine ⟨ctx, _, _, x, y, n, reportsIntegers_of_calculated hcx ctx,
    reportsIntegers_of_calculated hcy ctx, htotal, fun hstates => ?_⟩
  obtain ⟨hd, hk⟩ := (Report.statesTotal_iff htext hplain he).mp hstates
  exact h hd (hk.trans htotal)

section Plain

variable (hx : ∀ l ∈ x.literals, l.isPlain = true) (hy : ∀ l ∈ y.literals, l.isPlain = true)

include hx hy

theorem misstatesSum_of_regrouped (hk : (x.regrouped y).CalculatesTo k)
    (h : (x.regrouped y).depth ≤ maxDepth → k ≠ .int n) :
    MisstatesSum ⟨some x.clear⟩ ⟨some y.clear⟩ :=
  misstatesSum hcx hcy hn (breakdown_add_eq_text hx .zero .zero) (plain_regrouped hx hy) hk h

theorem misstatesSum_of_isTest (htest : x.IsTest ∨ y.IsTest) (hlarge : 1 < n) :
    MisstatesSum ⟨some x.clear⟩ ⟨some y.clear⟩ := by
  have hcalculates := Expr.calculatesTo_regrouped hcx hcy
  obtain ⟨b, hb⟩ := Expr.exists_regroupedTotal_eq_ofBool htest
  refine misstatesSum_of_regrouped hcx hcy hn hx hy hcalculates fun _ h => ?_
  rw [hb] at h
  cases b
  · cases h
    exact absurd hlarge (by decide)
  · cases h
    exact absurd hlarge (by decide)

end Plain

end Misstated

/-- The number one behind some plus signs, evaluated. -/
def lifted : Nat → Expr
  | 0 => .counted 1
  | n + 1 => .sign (some (.number (.int 1))) .plus (lifted n)

theorem amount_lifted (n : Nat) : (lifted n).amount = 1 := by
  cases n <;> rfl

theorem calculated_lifted (n : Nat) : (lifted n).Calculated := by
  induction n with
  | zero => exact Expr.calculated_counted 1
  | succ n ih =>
    refine ih.sign (Context.start none (⟨[], .constant 1⟩ : Script)) ?_
    rw [amount_lifted]
    rfl

theorem plain_lifted (n : Nat) : ∀ l ∈ (lifted n).literals, l.isPlain = true := by
  induction n with
  | zero => decide
  | succ n ih => exact ih

theorem depth_lifted (n : Nat) : (lifted n).depth = n + 1 := by
  induction n with
  | zero => rfl
  | succ n ih => rw [lifted, Expr.depth, ih]

theorem misstatesSum_lifted {n : Nat} (h : maxDepth ≤ n + 1) :
    MisstatesSum ⟨some (lifted n).clear⟩ ⟨some (.int 1)⟩ := by
  have hsum : (lifted n).amount.toInt + (lifted 0).amount.toInt = (2 : Int64).toInt := by
    rw [amount_lifted]
    rfl
  have hcn := calculated_lifted n
  have hcz := calculated_lifted 0
  have hcalculates := Expr.calculatesTo_regrouped hcn hcz
  refine misstatesSum_of_regrouped hcn hcz hsum (plain_lifted n) (plain_lifted 0) hcalculates
    fun hd => ?_
  have hregrouped : (lifted n).regrouped (lifted 0) =
      .binary none (.arithmetic .plus) (lifted n) (lifted 0) := by
    cases n <;> rfl
  rw [hregrouped, Expr.depth, depth_lifted] at hd
  omega

/-- A sum becomes an operand of a comparison before or behind the plus sign, its terms may leave the
range one by one, it may be too deep to be read, and a negative number without parentheses loses its
sign to a power. -/
theorem sums_misstated :
    MisstatesSum ⟨some (.binary none (.test .less) (.int 1) (.int 2))⟩ ⟨some (.int 3)⟩ ∧
      MisstatesSum ⟨some (.int 3)⟩ ⟨some (.binary none (.test .less) (.int 1) (.int 2))⟩ ∧
      MisstatesSum ⟨some (.int 1000)⟩ ⟨some (.binary none (.arithmetic .minus)
        (.int 9223372036854775807) (.int 9223372036854775807))⟩ ∧
      MisstatesSum ⟨some (lifted 255).clear⟩ ⟨some (.int 1)⟩ ∧
      MisstatesSum ⟨some (.binary none (.arithmetic .power) (.int (-3)) (.int 2))⟩
        ⟨some (.int 0)⟩ := by
  let start : Context Script := Context.start none ⟨[], .constant 1⟩
  have hcounted := Expr.calculated_counted
  have hless : (Expr.binary (some (.number (.int 1))) (.test .less) (.counted 1)
      (.counted 2)).Calculated := .binary (by decide) (hcounted 1) (hcounted 2) start rfl
  refine ⟨?before, ?behind, ?range, ?deep, ?negative⟩
  case before =>
    exact misstatesSum_of_isTest (n := 4) hless (hcounted 3) rfl (by decide) (by decide)
      (.inl (by decide)) (by decide)
  case behind =>
    exact misstatesSum_of_isTest (n := 4) (hcounted 3) hless rfl (by decide) (by decide)
      (.inr (by decide)) (by decide)
  case range =>
    let zero : Expr := .binary (some (.number (.int 0))) (.arithmetic .minus)
      (.counted 9223372036854775807) (.counted 9223372036854775807)
    have hmax := hcounted 9223372036854775807
    have hzero : zero.Calculated := .binary (by decide) hmax hmax start rfl
    have hregrouped : ((Expr.counted 1000).regrouped zero).CalculatesTo _ :=
      Expr.calculatesTo_addTerms (hcounted 1000).calculatesTo hzero
    refine misstatesSum_of_regrouped (n := 1000) (hcounted 1000) hzero rfl (by decide) (by decide)
      hregrouped fun _ h => ?_
    obtain ⟨hfits, -⟩ := (Number.foldl_eq_int_iff Term.addTo_float Term.addTo_int_eq_int_iff
      _ _ _).mp h
    obtain ⟨n, hn⟩ := hfits [⟨.plus, .counted 9223372036854775807⟩] ⟨_, rfl⟩
    have hbound := Int64.toInt_lt n
    have hlarge : n.toInt = 1000 + 9223372036854775807 := hn.symm
    omega
  case deep => exact misstatesSum_lifted (Nat.le_refl maxDepth)
  case negative =>
    have hpower : (Expr.binary (some (.number (.int 9))) (.arithmetic .power) (.counted (-3))
        (.counted 2)).Calculated := .binary (by decide) (hcounted (-3)) (hcounted 2) start rfl
    have hread : (Expr.binary (some (.number (.int (-9)))) (.arithmetic .plus)
        (.sign (some (.number (.int (-9)))) .minus
          (.binary (some (.number (.int 9))) (.arithmetic .power) (.counted 3) (.counted 2)))
        (.counted 0)).Calculated :=
      .binary (by decide)
        (.sign (.binary (by decide) (hcounted 3) (hcounted 2) start rfl) start rfl)
        (hcounted 0) start rfl
    refine misstatesSum (n := 9) hpower (hcounted 0) rfl (by decide) (by decide)
      hread.calculatesTo fun _ h => ?_
    exact absurd (Number.int.inj h) (by decide)

end Formula

end DiceNotation
