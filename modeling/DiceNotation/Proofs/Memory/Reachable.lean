import DiceNotation.Formula
import DiceNotation.Proofs.Memory.Settled
import DiceNotation.Proofs.Reader.Climbing

/-!
# No stale memory

Formulas are read, evaluated in any context, rewritten, joined, and taken apart. Whatever is done to
them and in whatever order, they remember no value that is out of date.

* `clear_of_read`: an expression remembers nothing when it has just been read.
* `Reachable.settled`: all that a formula ever remembers is up to date.
-/

namespace DiceNotation

/-! ## Expressions that were just read -/

namespace Climbing

/-- What is found remembers nothing. -/
def Forgetful (found : Option (Expr × List Token)) : Prop :=
  ∀ e rest, found = some (e, rest) → e.clear = e

theorem forgetful_operand {ts : List Token}
    (ih : ∀ left inner, inner.length < ts.length → Forgetful (climb left inner)) :
    Forgetful (operand ts) := by
  intro e rest h
  rcases operand_cases h with ⟨l, rfl, rfl⟩ | ⟨inner, rfl, hx⟩ | ⟨s, inner, x, rfl, hx, rfl⟩
  · rfl
  · exact ih none inner (Nat.lt_add_one _) e _ hx
  · rw [Expr.clear, ih (some (.sign s)) inner (Nat.lt_add_one _) x _ hx]

theorem forgetful_climb (left : Option Operator) (ts : List Token) :
    Forgetful (climb left ts) := by
  -- extending keeps an operand that remembers nothing and only puts new nodes above it
  refine (induction_on_reading (O := fun ts => Forgetful (operand ts))
    (C := fun left ts => Forgetful (climb left ts))
    (E := fun left x ts => x.clear = x → Forgetful (extend left x ts))
    (fun ts ih => forgetful_operand ih) ?climb_of ?stops ?factorial ?binary).2.1 left ts
  case climb_of =>
    intro left ts hoperand hextend e rest h
    rw [climb_eq] at h
    obtain ⟨⟨x, mid⟩, hx, he⟩ := Option.bind_eq_some_iff.mp h
    exact hextend x mid hx (hoperand x mid hx) e rest he
  case stops =>
    intro left x ts hs hclear e rest h
    rw [extend_of_stops x hs] at h
    cases h
    exact hclear
  case factorial =>
    intro left x ts htake ih hclear e rest h
    rw [extend_factorial x ts htake] at h
    exact ih (by rw [Expr.clear, hclear]) e rest h
  case binary =>
    intro left x b ts htake hright hrest hclear e rest h
    rw [extend_binary x ts htake] at h
    obtain ⟨⟨y, mid⟩, hy, he⟩ := Option.bind_eq_some_iff.mp h
    have hright := hright y mid hy
    exact hrest y mid hy (by rw [Expr.clear, hclear, hright]) e rest he

theorem clear_of_read {ts : List Token} {e : Expr} (h : read ts = some e) : e.clear = e :=
  forgetful_climb none ts e [] (read_eq_some_iff.mp h)

end Climbing

namespace Formula

/-- All that a formula remembers is up to date. -/
def Settled (f : Formula) : Prop := ∀ e, f.root = some e → e.Settled

theorem settled_of_ofTokens {ts : List Token} {f : Formula} (h : ofTokens ts = .ok f) :
    f.Settled := by
  intro e he
  rw [ofTokens] at h
  cases hroot : Expr.ofTokens ts with
  | error c =>
    rw [hroot] at h
    cases h
  | ok root =>
    rw [hroot] at h
    cases h
    cases he
    obtain ⟨hread, -⟩ := Reader.ofTokens_eq_some_iff.mp hroot
    rw [← Climbing.clear_of_read hread]
    exact e.settled_clear

theorem settled_of_ofText {cs : List Char} {f : Formula} (h : ofText cs = .ok f) :
    f.Settled := by
  rw [ofText] at h
  cases hts : Token.ofText cs with
  | error c =>
    rw [hts] at h
    cases h
  | ok ts =>
    rw [hts] at h
    exact settled_of_ofTokens h

variable {f g : Formula}

theorem settled_empty : empty.Settled := by
  intro e he
  cases he

theorem Settled.map {change : Expr → Expr} (h : f.Settled)
    (hchange : ∀ e : Expr, e.Settled → (change e).Settled) :
    (Formula.mk (f.root.map change)).Settled := by
  intro e he
  obtain ⟨x, hx, rfl⟩ := Option.map_eq_some_iff.mp he
  exact hchange x (h x hx)

theorem Settled.clear (h : f.Settled) : f.clear.Settled := h.map fun e _ => e.settled_clear

theorem Settled.averageify (h : f.Settled) : f.averageify.Settled :=
  h.map fun e he => by
    rw [e.averageify_eq_raise]
    exact he.raise .average

theorem Settled.critify (h : f.Settled) : f.critify.Settled :=
  h.map fun e he => by
    rw [e.critify_eq_raise]
    exact he.raise .critical

theorem Settled.maxify (h : f.Settled) : f.maxify.Settled :=
  h.map fun e he => by
    rw [e.maxify_eq_raise]
    exact he.raise .maximum

theorem Settled.applyMode (h : f.Settled) (m : Mode) : (f.applyMode m).Settled :=
  h.map fun _ he => he.applyMode m

theorem Settled.rootOrZero (h : f.Settled) : f.rootOrZero.Settled := by
  cases hroot : f.root with
  | none =>
    rw [Formula.rootOrZero, hroot]
    exact Expr.everywhere_literal.mpr (Expr.isCurrent_of_forgetful rfl)
  | some e =>
    rw [Formula.rootOrZero, hroot]
    exact h e hroot

theorem Settled.joined (hf : f.Settled) (hg : g.Settled) (a : Arithmetic) :
    (Formula.joined a f g).Settled := by
  intro e he
  cases he
  exact Expr.everywhere_binary.mpr
    ⟨Expr.isCurrent_of_forgetful rfl, hf.rootOrZero, hg.rootOrZero⟩

theorem settled_int (n : Int64) : (⟨some (.int n)⟩ : Formula).Settled := by
  intro e he
  cases he
  exact Expr.everywhere_literal.mpr (Expr.isCurrent_of_forgetful rfl)

theorem Settled.addModifier (h : f.Settled) (m : Int64) : (f.addModifier m).Settled := by
  rw [Formula.addModifier]
  split
  · exact h
  · exact h.joined (settled_int _) _

theorem Settled.concat {op : Operator} {result : Formula} (hf : f.Settled) (hg : g.Settled)
    (h : f.concat g op = .ok result) : result.Settled := by
  rw [Formula.concat] at h
  cases hjoiner : joiner op with
  | error c =>
    rw [hjoiner] at h
    cases h
  | ok a =>
    rw [hjoiner] at h
    cases h
    exact hf.joined hg a

/-- Joining in place leaves two formulas that remember nothing out of date, even if it fails. -/
theorem Settled.concatFrom (hf : f.Settled) (hg : g.Settled) (op : Operator) :
    ((Formula.concatFrom op).run.run (f, g)).2.1.Settled ∧
      ((Formula.concatFrom op).run.run (f, g)).2.2.Settled := by
  rw [run_concatFrom]
  cases joiner op with
  | error c => exact ⟨hf, hg⟩
  | ok a => exact ⟨hf.joined hg a, settled_empty⟩

theorem Settled.part (h : f.Settled) (side : Side) : (f.part side).Settled := by
  intro e he
  obtain ⟨root, hroot, hpart⟩ := Option.bind_eq_some_iff.mp he
  exact Expr.Everywhere.subtree (h root hroot) (Expr.mem_subtrees_of_operand hpart)

theorem Settled.evaluate {ρ : Type} [Roller ρ] (h : f.Settled) (ctx : Context ρ) :
    (f.evaluate.run ctx).1.2.Settled := by
  rcases f.evaluate_cases ctx with ⟨-, hrun⟩ | ⟨e, result, e', last, hroot, he, hrun⟩
  · rw [hrun]
    exact h
  · rw [hrun]
    intro x hx
    cases hx
    exact he.settled (h e hroot)

/-! ## Whatever is done to formulas -/

/-- The formulas that come about by reading and by any sequence of operations. -/
inductive Reachable : Formula → Prop where
  | text {cs : List Char} {f : Formula} : ofText cs = .ok f → Reachable f
  | tokens {ts : List Token} {f : Formula} : ofTokens ts = .ok f → Reachable f
  | evaluate {ρ : Type} [Roller ρ] (ctx : Context ρ) {f : Formula} :
      Reachable f → Reachable (f.evaluate.run ctx).1.2
  | clear {f : Formula} : Reachable f → Reachable f.clear
  | averageify {f : Formula} : Reachable f → Reachable f.averageify
  | critify {f : Formula} : Reachable f → Reachable f.critify
  | maxify {f : Formula} : Reachable f → Reachable f.maxify
  | applyMode (m : Mode) {f : Formula} : Reachable f → Reachable (f.applyMode m)
  | addModifier (m : Int64) {f : Formula} : Reachable f → Reachable (f.addModifier m)
  | concat {op : Operator} {f g h : Formula} :
      Reachable f → Reachable g → f.concat g op = .ok h → Reachable h
  | concatFrom (op : Operator) {f g : Formula} :
      Reachable f → Reachable g → Reachable ((concatFrom op).run.run (f, g)).2.1
  | concatRest (op : Operator) {f g : Formula} :
      Reachable f → Reachable g → Reachable ((concatFrom op).run.run (f, g)).2.2
  | add {f g : Formula} : Reachable f → Reachable g → Reachable (f + g)
  | sub {f g : Formula} : Reachable f → Reachable g → Reachable (f - g)
  | joinTaken (a : Arithmetic) {f g : Formula} :
      Reachable f → Reachable g → Reachable ((joinTaken a).run (f, g)).1
  | assign (a : Arithmetic) {f g : Formula} :
      Reachable f → Reachable g → Reachable ((assign a g).run f).2
  | part (side : Side) {f : Formula} : Reachable f → Reachable (f.part side)

theorem Reachable.settled (h : Reachable f) : f.Settled := by
  induction h with
  | text hread => exact settled_of_ofText hread
  | tokens hread => exact settled_of_ofTokens hread
  | evaluate ctx hf ih => exact ih.evaluate ctx
  | clear hf ih => exact ih.clear
  | averageify hf ih => exact ih.averageify
  | critify hf ih => exact ih.critify
  | maxify hf ih => exact ih.maxify
  | applyMode m hf ih => exact ih.applyMode m
  | addModifier m hf ih => exact ih.addModifier m
  | concat hf hg hresult ihf ihg => exact ihf.concat ihg hresult
  | concatFrom op hf hg ihf ihg => exact (ihf.concatFrom ihg op).1
  | concatRest op hf hg ihf ihg => exact (ihf.concatFrom ihg op).2
  | add hf hg ihf ihg => exact ihf.joined ihg .plus
  | sub hf hg ihf ihg => exact ihf.joined ihg .minus
  | joinTaken a hf hg ihf ihg => exact ihf.joined ihg a
  | assign a hf hg ihf ihg => exact ihf.joined ihg a
  | part side hf ih => exact ih.part side

/-- Whatever is done to formulas, a node remembers a value only if everything below it remembers
one too, and only the value that it can have there. -/
theorem memory_up_to_date (h : Reachable f) {root e : Expr} (hroot : f.root = some root)
    (he : e ∈ root.subtrees) {v : Value} (hv : e.memory = some v) :
    (∀ x ∈ e.subtrees, x.memory.isSome) ∧ e.Justifies v := by
  have hsettled : e.Settled := Expr.Everywhere.subtree (h.settled root hroot) he
  have hsome : e.memory.isSome := by rw [hv, Option.isSome_some]
  exact ⟨hsettled.isSome_memory hsome, (hsettled e e.mem_subtrees_self v hv).2⟩

/-- After `1d6/0` has failed, its left operand still remembers a roll, and rightly so. -/
theorem memory_up_to_date_after_failure :
    let whole : Formula := ⟨some (.binary none (.arithmetic .dividedBy)
      (.binary none (.dice .plain) (.int 1) (.int 6)) (.int 0))⟩
    let failed := whole.evaluate.run (Context.start (some 10) (⟨[4], .constant 1⟩ : Script))
    failed.1.1 = .error (.arithmetic .divisionByZero) ∧ Reachable (failed.1.2.part .left) ∧
    ∃ root v, (failed.1.2.part .left).root = some root ∧ root ∈ root.subtrees ∧
      root.memory = some v ∧ (∀ x ∈ root.subtrees, x.memory.isSome) ∧ root.Justifies v := by
  intro whole failed
  have hread : ofTokens [.int 1, .op (.binary (.dice .plain)), .int 6,
      .op (.binary (.arithmetic .dividedBy)), .int 0] = .ok whole := rfl
  have hreach : Reachable (failed.1.2.part .left) :=
    ((Reachable.tokens hread).evaluate _).part .left
  have hself := Expr.mem_subtrees_self
  exact ⟨rfl, hreach, _, _, rfl, hself _, rfl, memory_up_to_date hreach rfl (hself _) rfl⟩

end Formula

end DiceNotation
