import DiceNotation.Proofs.Evaluation.Integers
import DiceNotation.Proofs.Number.Totals
import DiceNotation.Proofs.Token.Written

/-!
# Expressions behind a plus sign

The text of two expressions with a plus sign between them is that of another tree than the sum of
the two. The terms of a sum are added one after the other to what stands before, so that there are
other totals on the way to the same one. What compares or combines truth values binds less tightly,
and takes the sum as its operand.

* `terms`, `addTerms`: the terms of a sum, and the tree in which they are added one by one.
* `regrouped`, `text_regrouped`: the tree that has the text, for any two expressions.
* `regroupedTotal`, `calculatesTo_regrouped`: what it comes to.
-/

namespace DiceNotation

/-- The sign of a term as the operator in front of it. -/
def Sign.toArithmetic : Sign → Arithmetic
  | minus => .minus
  | plus => .plus

/-- A part of a sum with the sign that it stands behind. -/
structure Term where
  sign : Sign
  expr : Expr

namespace Expr

/-! ## Terms -/

/-- The terms of a sum from left to right. What is no sum is one term. -/
def terms : Expr → List Term
  | binary _ (.arithmetic .plus) x y => x.terms ++ [⟨.plus, y⟩]
  | binary _ (.arithmetic .minus) x y => x.terms ++ [⟨.minus, y⟩]
  | e => [⟨.plus, e⟩]

def addTerm (x : Expr) (t : Term) : Expr :=
  binary none (.arithmetic t.sign.toArithmetic) x t.expr

/-- Adds the terms of a sum one after the other. -/
def addTerms (x e : Expr) : Expr := e.terms.foldl addTerm x

/-- Induction along the left operands of some operators. -/
theorem left_induction {P : Expr → Prop} (ops : BinaryOperator → Prop)
    (inner : ∀ m b x y, ops b → P x → P (binary m b x y))
    (outer : ∀ e, (∀ m b x y, e = binary m b x y → ¬ops b) → P e) (e : Expr) : P e := by
  induction e with
  | literal m l => exact outer _ nofun
  | sign m s x _ => exact outer _ nofun
  | factorial m x _ => exact outer _ nofun
  | binary m b x y ihx _ =>
    by_cases hb : ops b
    · exact inner m b x y hb ihx
    · refine outer _ ?_
      rintro _ _ _ _ ⟨⟩
      exact hb

def IsSum (e : Expr) : Prop := ∃ m s x y, e = binary m (.arithmetic (Sign.toArithmetic s)) x y

theorem sum_induction {P : Expr → Prop}
    (sum : ∀ m s x y, P x → P (binary m (.arithmetic (Sign.toArithmetic s)) x y))
    (other : ∀ e, ¬e.IsSum → P e) (e : Expr) : P e := by
  refine left_induction (fun b => ∃ s, b = .arithmetic (Sign.toArithmetic s)) ?_ ?_ e
  · rintro m _ x y ⟨s, rfl⟩ hx
    exact sum m s x y hx
  · intro e h
    refine other e ?_
    rintro ⟨m, s, x, y, he⟩
    exact h _ _ _ _ he ⟨s, rfl⟩

theorem terms_sum (m : Option Value) (s : Sign) (x y : Expr) :
    (binary m (.arithmetic s.toArithmetic) x y).terms = x.terms ++ [⟨s, y⟩] := by
  cases s <;> rfl

theorem terms_of_not_isSum {e : Expr} (h : ¬e.IsSum) : e.terms = [⟨.plus, e⟩] := by
  unfold terms
  split
  · exact absurd ⟨_, .plus, _, _, rfl⟩ h
  · exact absurd ⟨_, .minus, _, _, rfl⟩ h
  · rfl

theorem addTerms_sum (z : Expr) (m : Option Value) (s : Sign) (x y : Expr) :
    z.addTerms (binary m (.arithmetic s.toArithmetic) x y) =
      binary none (.arithmetic s.toArithmetic) (z.addTerms x) y := by
  rw [addTerms, terms_sum, List.foldl_append]
  rfl

theorem addTerms_of_not_isSum (z : Expr) {e : Expr} (h : ¬e.IsSum) :
    z.addTerms e = binary none (.arithmetic .plus) z e := by
  rw [addTerms, terms_of_not_isSum h]
  rfl

theorem isSum_addTerms (z e : Expr) : (z.addTerms e).IsSum := by
  induction e using sum_induction with
  | sum m s x y _ => exact ⟨_, s, _, _, addTerms_sum z m s x y⟩
  | other e h => exact ⟨_, .plus, _, _, addTerms_of_not_isSum z h⟩

theorem literals_addTerms (z e : Expr) : (z.addTerms e).literals = z.literals ++ e.literals := by
  induction e using sum_induction with
  | sum m s x y ih => rw [addTerms_sum, literals, literals, ih, List.append_assoc]
  | other e h => rw [addTerms_of_not_isSum z h, literals]

/-! ## The text of sums -/

/-- Beside a plus or minus sign an operand is written alike. -/
theorem textBeside_toArithmetic (s : Sign) (side : Side) (e : Expr) :
    e.textBeside (.binary (.arithmetic s.toArithmetic)) side = e.textBeside .plus side := by
  cases s
  · cases e <;> rfl
  · rfl

/-- Beside anything but a dice operator only parentheses are added to an operand. -/
theorem textBeside_of_not_isDice {op : Operator} (h : op.isDice = false) (side : Side) (e : Expr) :
    e.textBeside op side =
      if op.encloses side e.op? then '(' :: e.text.toList ++ [')'] else e.text.toList := by
  have hfudge : isFudgeDie op side e = false := by
    cases e <;> simp only [isFudgeDie, h, Bool.false_and]
  rw [textBeside, hfudge, if_neg Bool.false_ne_true]

theorem textBeside_plus (side : Side) (e : Expr) :
    e.textBeside .plus side =
      if Operator.plus.encloses side e.op? then '(' :: e.text.toList ++ [')']
      else e.text.toList :=
  textBeside_of_not_isDice rfl side e

theorem textBeside_plus_of_isSum {e : Expr} (h : e.IsSum) :
    e.textBeside .plus .left = e.text.toList := by
  obtain ⟨m, s, x, y, rfl⟩ := h
  rw [textBeside_plus]
  cases s <;> exact if_neg Bool.false_ne_true

/-- What is no sum keeps its parentheses, whatever the side. -/
theorem encloses_of_not_isSum {e : Expr} (h : ¬e.IsSum) :
    Operator.plus.encloses .right e.op? = Operator.plus.encloses .left e.op? := by
  cases e with
  | literal m l => rfl
  | sign m s x => cases s <;> rfl
  | factorial m x => rfl
  | binary m b x y =>
    cases b with
    | arithmetic a =>
      cases a with
      | plus => exact absurd ⟨m, .plus, x, y, rfl⟩ h
      | minus => exact absurd ⟨m, .minus, x, y, rfl⟩ h
      | _ => rfl
    | _ => rfl

/-- The terms are written one after the other, like the sum behind a plus sign. -/
theorem toList_text_addTerms (z e : Expr) :
    (z.addTerms e).text.toList = z.textBeside .plus .left ++ '+' :: e.textBeside .plus .left := by
  induction e using sum_induction with
  | sum m s x y ih =>
    have hsum : (binary m (.arithmetic s.toArithmetic) x y).IsSum := ⟨m, s, x, y, rfl⟩
    rw [textBeside_plus_of_isSum hsum, addTerms_sum, toList_text_binary, toList_text_binary,
      textBeside_toArithmetic, textBeside_toArithmetic s .left x,
      textBeside_plus_of_isSum (isSum_addTerms z x), ih, List.append_assoc]
    rfl
  | other e h =>
    have hside : e.textBeside .plus .right = e.textBeside .plus .left := by
      rw [textBeside_plus, textBeside_plus, encloses_of_not_isSum h]
    rw [addTerms_of_not_isSum z h, toList_text_binary, ← hside]
    rfl

/-! ## Tests at the root -/

/-- Whether the root compares or combines truth values. -/
def IsTest (e : Expr) : Prop := ∃ m t x y, e = binary m (.test t) x y

instance : DecidablePred IsTest
  | binary m (.test t) x y => .isTrue ⟨m, t, x, y, rfl⟩
  | literal .. | sign .. | factorial .. | binary _ (.dice _) .. | binary _ (.modifier _) ..
  | binary _ (.arithmetic _) .. => .isFalse (by rintro ⟨_, _, _, _, ⟨⟩⟩)

theorem test_induction {P : Expr → Prop}
    (test : ∀ m t x y, P x → P (binary m (.test t) x y))
    (other : ∀ e, ¬e.IsTest → P e) (e : Expr) : P e := by
  refine left_induction (fun b => ∃ t, b = .test t) ?_ ?_ e
  · rintro m _ x y ⟨t, rfl⟩ hx
    exact test m t x y hx
  · intro e h
    refine other e ?_
    rintro ⟨m, t, x, y, he⟩
    exact h _ _ _ _ he ⟨t, rfl⟩

/-- Nothing binds less tightly than a test. -/
theorem textBeside_test_left (t : Test) (e : Expr) :
    e.textBeside (.binary (.test t)) .left = e.text.toList := by
  have hbare : ∀ o ∈ Operator.all, (Operator.binary (.test t)).encloses .left o = false := by
    cases t <;> decide
  rw [textBeside_of_not_isDice rfl]
  cases hop : e.op? with
  | none => rfl
  | some o => rw [hbare o (Operator.mem_all o), if_neg Bool.false_ne_true]

/-- Tests alone have parentheses behind a test, and in front of a plus sign. -/
theorem textBeside_test_right (t : Test) (e : Expr) :
    e.textBeside (.binary (.test t)) .right = e.textBeside .plus .left := by
  have halike : ∀ o ∈ Operator.all,
      (Operator.binary (.test t)).encloses .right o = Operator.plus.encloses .left o := by
    cases t <;> decide
  rw [textBeside_of_not_isDice rfl, textBeside_plus]
  cases hop : e.op? with
  | none => rfl
  | some o => rw [halike o (Operator.mem_all o)]

theorem textBeside_plus_of_not_isTest {e : Expr} (h : ¬e.IsTest) :
    e.textBeside .plus .left = e.text.toList := by
  rw [textBeside_plus]
  refine if_neg fun hencloses => h ?_
  cases e with
  | literal m l => cases hencloses
  | sign m s x => cases s <;> cases hencloses
  | factorial m x => cases hencloses
  | binary m b x y =>
    cases b with
    | dice kind => cases hencloses
    | modifier c => cases hencloses
    | arithmetic a => cases a <;> cases hencloses
    | test t => exact ⟨m, t, x, y, rfl⟩

/-! ## Regrouping -/

/-- The tree that is read if a plus sign and an expression without a test at its root stand behind
an expression. A test takes the sum as its right operand. -/
def followedBy (z e : Expr) : Expr :=
  match z with
  | binary _ (.test t) x y => binary none (.test t) x (y.addTerms e)
  | z => z.addTerms e

/-- The tree that is read if a plus sign stands between two expressions. A test behind it takes the
sum as its left operand. -/
def regrouped (z : Expr) : Expr → Expr
  | binary _ (.test t) x y => binary none (.test t) (z.regrouped x) y
  | e => z.followedBy e

theorem followedBy_of_not_isTest {z : Expr} (h : ¬z.IsTest) (e : Expr) :
    z.followedBy e = z.addTerms e := by
  unfold followedBy
  split
  · exact absurd ⟨_, _, _, _, rfl⟩ h
  · rfl

theorem regrouped_of_not_isTest (z : Expr) {e : Expr} (h : ¬e.IsTest) :
    z.regrouped e = z.followedBy e := by
  unfold regrouped
  split
  · exact absurd ⟨_, _, _, _, rfl⟩ h
  · rfl

theorem literals_followedBy (z e : Expr) :
    (z.followedBy e).literals = z.literals ++ e.literals := by
  cases z using test_induction with
  | test m t x y _ => rw [followedBy, literals, literals, literals_addTerms, List.append_assoc]
  | other z h => rw [followedBy_of_not_isTest h, literals_addTerms]

theorem literals_regrouped (z e : Expr) :
    (z.regrouped e).literals = z.literals ++ e.literals := by
  induction e using test_induction with
  | test m t x y ih => rw [regrouped, literals, literals, ih, List.append_assoc]
  | other e h => rw [regrouped_of_not_isTest z h, literals_followedBy]

theorem toList_text_followedBy (z : Expr) {e : Expr} (h : ¬e.IsTest) :
    (z.followedBy e).text.toList = z.text.toList ++ '+' :: e.text.toList := by
  cases z using test_induction with
  | test m t x y _ =>
    rw [followedBy, toList_text_binary, toList_text_binary, textBeside_test_right,
      textBeside_test_right, textBeside_plus_of_isSum (isSum_addTerms y e), toList_text_addTerms,
      textBeside_plus_of_not_isTest h]
    simp only [List.append_assoc]
  | other z hz =>
    rw [followedBy_of_not_isTest hz, toList_text_addTerms, textBeside_plus_of_not_isTest hz,
      textBeside_plus_of_not_isTest h]

/-- The tree is written like the two expressions with a plus sign between them. -/
theorem text_regrouped (z e : Expr) : (z.regrouped e).text = z.text ++ "+" ++ e.text := by
  apply String.toList_inj.mp
  rw [String.toList_append, String.toList_append, List.append_assoc]
  change _ = z.text.toList ++ '+' :: e.text.toList
  induction e using test_induction with
  | test m t x y ih =>
    rw [regrouped, toList_text_binary, toList_text_binary, textBeside_test_left,
      textBeside_test_left, ih, List.append_assoc, List.cons_append]
  | other e h => rw [regrouped_of_not_isTest z h, toList_text_followedBy z h]

end Expr

/-! ## Amounts -/

namespace Term

/-- What a term adds to a sum. -/
def effect (t : Term) : Int :=
  match t.sign with
  | .minus => -t.expr.amount.toInt
  | .plus => t.expr.amount.toInt

/-- A running total with one more term. -/
def addTo (total : Number) (t : Term) : Number :=
  match t.sign with
  | .minus => total - .int t.expr.amount
  | .plus => total + .int t.expr.amount

theorem addTo_float (x : Float) (t : Term) : ∃ z, addTo (.float x) t = .float z := by
  obtain ⟨s, e⟩ := t
  cases s <;> exact ⟨_, rfl⟩

theorem addTo_int_eq_int_iff (k : Int64) (t : Term) (n : Int64) :
    addTo (.int k) t = .int n ↔ k.toInt + t.effect = n.toInt := by
  obtain ⟨s, e⟩ := t
  cases s with
  | minus =>
    rw [addTo, Number.int_sub_int_eq_int_iff, effect, Int.sub_eq_add_neg]
  | plus => exact Number.int_add_int_eq_int_iff

end Term

namespace Expr

/-- Adding and subtracting numbers never fails. -/
theorem run_toArithmetic {ρ : Type} [Roller ρ] (total : Number) (t : Term) (ctx : Context ρ) :
    ((Operator.binary (.arithmetic t.sign.toArithmetic)).apply (some (.number total))
      (some (.number (.int t.expr.amount)))).run.run ctx =
        (.ok (.number (Term.addTo total t)), ctx) := by
  have hne (x : Number) (f : Faces) : Value.number x ≠ .faces f := Value.noConfusion
  rw [Operator.run_arithmetic_of_ne_faces _ (hne _) (hne _)]
  obtain ⟨s, e⟩ := t
  cases s <;> rfl

/-- Evaluated anew, in any context, the expression comes to a number and rolls nothing. -/
def CalculatesTo (e : Expr) (x : Number) : Prop :=
  ∀ ⦃ρ : Type⦄ [Roller ρ] (ctx : Context ρ),
    ∃ g, e.clear.evaluate.run ctx = ((.ok (.number x), g), ctx)

theorem Calculated.calculatesTo {e : Expr} (h : e.Calculated) : e.CalculatesTo (.int e.amount) :=
  fun _ _ ctx => ⟨e, h.evaluate_clear ctx⟩

theorem CalculatesTo.addTerm {x : Expr} {total : Number} (h : x.CalculatesTo total) {t : Term}
    (ht : t.expr.Calculated) : (x.addTerm t).CalculatesTo (t.addTo total) := by
  intro ρ _ ctx
  obtain ⟨g, hg⟩ := h ctx
  exact ⟨_, run_evaluate_binary hg (ht.evaluate_clear ctx) (run_toArithmetic total t ctx)⟩

theorem CalculatesTo.test {x y : Expr} {k l : Number} (hx : x.CalculatesTo k)
    (hy : y.CalculatesTo l) (t : Test) :
    (binary none (.test t) x y).CalculatesTo (.ofBool (t.decide k l)) := by
  intro ρ _ ctx
  obtain ⟨g, hg⟩ := hx ctx
  obtain ⟨g', hg'⟩ := hy ctx
  exact ⟨_, run_evaluate_binary hg hg' (Operator.run_test t ctx)⟩

/-- The terms of a sum are added to the running total. -/
theorem calculatesTo_addTerms {z e : Expr} {total : Number} (hz : z.CalculatesTo total)
    (he : e.Calculated) : (z.addTerms e).CalculatesTo (e.terms.foldl Term.addTo total) := by
  induction e using sum_induction with
  | sum m s x y ih =>
    obtain ⟨-, hx, hy⟩ := everywhere_binary.mp he
    rw [addTerms_sum, terms_sum, List.foldl_append]
    exact (ih hx).addTerm (t := ⟨s, y⟩) hy
  | other e h =>
    rw [addTerms_of_not_isSum z h, terms_of_not_isSum h]
    exact hz.addTerm (t := ⟨.plus, e⟩) he

/-! ## What a regrouped tree comes to -/

/-- What two expressions come to with a plus sign between them, if the second one has no test at its
root. A test at the root of the first one compares its left operand with the sum. -/
def followedTotal (z e : Expr) : Number :=
  match z with
  | binary _ (.test t) x y =>
    .ofBool (t.decide (.int x.amount) (e.terms.foldl Term.addTo (.int y.amount)))
  | z => e.terms.foldl Term.addTo (.int z.amount)

/-- What two expressions come to with a plus sign between them. A test at the root of the second one
compares the sum with its right operand. -/
def regroupedTotal (z : Expr) : Expr → Number
  | binary _ (.test t) x y => .ofBool (t.decide (z.regroupedTotal x) (.int y.amount))
  | e => z.followedTotal e

theorem followedTotal_of_not_isTest {z : Expr} (h : ¬z.IsTest) (e : Expr) :
    z.followedTotal e = e.terms.foldl Term.addTo (.int z.amount) := by
  unfold followedTotal
  split
  · exact absurd ⟨_, _, _, _, rfl⟩ h
  · rfl

theorem regroupedTotal_of_not_isTest (z : Expr) {e : Expr} (h : ¬e.IsTest) :
    z.regroupedTotal e = z.followedTotal e := by
  unfold regroupedTotal
  split
  · exact absurd ⟨_, _, _, _, rfl⟩ h
  · rfl

theorem calculatesTo_followedBy {z e : Expr} (hz : z.Calculated) (he : e.Calculated) :
    (z.followedBy e).CalculatesTo (z.followedTotal e) := by
  cases z using test_induction with
  | test m t x y _ =>
    obtain ⟨-, (hx : x.Calculated), (hy : y.Calculated)⟩ := everywhere_binary.mp hz
    exact hx.calculatesTo.test (calculatesTo_addTerms hy.calculatesTo he) t
  | other z h =>
    rw [followedBy_of_not_isTest h, followedTotal_of_not_isTest h]
    exact calculatesTo_addTerms hz.calculatesTo he

theorem calculatesTo_regrouped {z e : Expr} (hz : z.Calculated) (he : e.Calculated) :
    (z.regrouped e).CalculatesTo (z.regroupedTotal e) := by
  induction e using test_induction with
  | test m t x y ih =>
    obtain ⟨-, hx, (hy : y.Calculated)⟩ := everywhere_binary.mp he
    exact (ih hx).test hy.calculatesTo t
  | other e h =>
    rw [regrouped_of_not_isTest z h, regroupedTotal_of_not_isTest z h]
    exact calculatesTo_followedBy hz he

/-- A test at one of the roots is at the root of the whole. -/
theorem exists_regroupedTotal_eq_ofBool {z e : Expr} (h : z.IsTest ∨ e.IsTest) :
    ∃ b, z.regroupedTotal e = .ofBool b := by
  cases e using test_induction with
  | test m t x y _ => exact ⟨_, rfl⟩
  | other e hnot =>
    rw [regroupedTotal_of_not_isTest z hnot]
    obtain ⟨m, t, x, y, rfl⟩ := h.resolve_right hnot
    exact ⟨_, rfl⟩

/-- The terms of a sum add up to what it has come to. -/
theorem Calculated.sum_effects {e : Expr} (h : e.Calculated) :
    (e.terms.map Term.effect).sum = e.amount.toInt := by
  induction e using sum_induction with
  | sum m s x y ih =>
    have hmemory := h.memory_eq
    obtain ⟨⟨hcurrent, -⟩, (hx : x.Calculated), (hy : y.Calculated)⟩ := everywhere_binary.mp h
    have hyields : (Operator.binary (.arithmetic s.toArithmetic)).Yields x.memory y.memory _ :=
      (hcurrent _ hmemory).2
    rw [hx.memory_eq, hy.memory_eq] at hyields
    obtain ⟨σ, _, ctx, hrun⟩ := hyields
    rw [run_toArithmetic _ ⟨s, y⟩] at hrun
    have htotal := Value.number.inj (Except.ok.inj hrun)
    have hsum := (Term.addTo_int_eq_int_iff _ _ _).mp htotal
    rw [terms_sum, List.map_append, List.map_singleton, List.sum_append, List.sum_singleton, ih hx]
    exact hsum
  | other e hnot =>
    rw [terms_of_not_isSum hnot, List.map_singleton, List.sum_singleton, Term.effect]

end Expr

end DiceNotation
