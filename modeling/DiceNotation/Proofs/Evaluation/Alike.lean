import DiceNotation.Proofs.Evaluation.Cases
import DiceNotation.Proofs.Expr.Subtrees
import DiceNotation.Proofs.Operator.Applications
import DiceNotation.Proofs.Rolling.Alike

/-!
# Evaluations side by side

An operator does nothing with a context but count dice and, if it is one of those that ask the
roller, roll them. So a relation that is kept by counting and rolling is kept by evaluations,
which have the same value and leave the same tree.

* `Operator.alike_apply`: applications run alike.
* `Expr.alike_evaluate`, `Formula.evaluate_alike`, `Formula.report_alike`: evaluations and
  reports run alike.
-/

namespace DiceNotation

/-- Whether an operator may have the roller roll dice. -/
def Operator.asksRoller : Operator → Bool
  | .binary (.dice kind) => kind.isRolled
  | .binary (.modifier (.reroll _ _)) => true
  | _ => false

variable {ρ σ : Type} {R : Context ρ → Context σ → Prop}

variable [Roller ρ] [Roller σ]

/-! ## Operators -/

theorem DiceKind.alike_roll (hcount : CountsAlike R) (kind : DiceKind)
    (hroll : kind.isRolled = true → RollsAlike R) (n : Nat) (die : Die) :
    Alike R (kind.roll n die : RollM ρ Roll).run (kind.roll n die : RollM σ Roll).run := by
  have hcounted (face : Number) := RollM.alike_bind (hcount n) fun _ =>
    RollM.alike_pure (R := R) (Roll.of (List.replicate n face) die)
  cases kind with
  | plain => exact (hroll rfl).many n die
  | critical => exact (hroll rfl).many (2 * n) die
  | average => exact hcounted die.mean
  | maximum => exact hcounted die.max

theorem Roll.alike_rerolled (hroll : RollsAlike R) (r : Roll) (relation : Relation)
    (target : Number) (repetition : Repetition) :
    Alike R (r.rerolled relation target repetition : RollM ρ Roll).run
      (r.rerolled relation target repetition : RollM σ Roll).run := by
  intro ctx other hR
  have hreroll := r.alike_reroll relation target repetition (hroll.one r.die)
  obtain ⟨hvalue, hlast⟩ := hreroll ctx other hR
  rw [run_rerolled, run_rerolled, hvalue]
  exact ⟨rfl, hlast⟩

omit [Roller ρ] [Roller σ] in
/-- A modifier that only reworks the roll to its left. -/
theorem Modifier.alike_rework {α : Type} (amount : Except RollError α) (f : Roll → α → Roll)
    (left : Except RollError Roll) :
    Alike R (do let a ← amount; return f (← left) a : RollM ρ Roll).run
      (do let a ← amount; return f (← left) a : RollM σ Roll).run :=
  RollM.alike_bind (RollM.alike_liftM amount) fun _ =>
    RollM.alike_bind (RollM.alike_liftM left) fun _ => RollM.alike_pure _

theorem Modifier.alike_apply (m : Modifier)
    (hroll : (Operator.binary (.modifier m)).asksRoller = true → RollsAlike R)
    (left right : Option Value) :
    Alike R (m.apply left right : RollM ρ Roll).run (m.apply left right : RollM σ Roll).run := by
  cases m with
  | keepHigh => exact alike_rework _ Roll.keepHigh _
  | keepLow => exact alike_rework _ Roll.keepLow _
  | floor => exact alike_rework _ Roll.floor _
  | ceiling => exact alike_rework _ Roll.ceiling _
  | countAtLeast => exact alike_rework _ Roll.countAtLeast _
  | countAtMost => exact alike_rework _ Roll.countAtMost _
  | reroll relation repetition =>
    exact RollM.alike_bind (RollM.alike_liftM _) fun target =>
      RollM.alike_bind (RollM.alike_liftM _) fun r =>
        r.alike_rerolled (hroll rfl) relation target repetition

namespace Operator

/-- What an operator makes of its operands, it makes of them on both sides. -/
theorem alike_apply (hcount : CountsAlike R) (op : Operator)
    (hroll : op.asksRoller = true → RollsAlike R) (left right : Option Value) :
    Alike R (op.apply left right : RollM ρ Value).run
      (op.apply left right : RollM σ Value).run := by
  cases op with
  | sign s =>
    exact RollM.alike_bind (RollM.alike_liftM _) fun _ => RollM.alike_pure _
  | factorial =>
    exact RollM.alike_bind (RollM.alike_liftM _) fun _ => RollM.alike_liftM _
  | binary b =>
    cases b with
    | dice kind =>
      exact RollM.alike_bind (RollM.alike_liftM _) fun n =>
        RollM.alike_bind (RollM.alike_liftM _) fun die =>
          RollM.alike_bind (kind.alike_roll hcount hroll n die) fun _ => RollM.alike_pure _
    | modifier m =>
      exact RollM.alike_bind (m.alike_apply hroll left right) fun _ => RollM.alike_pure _
    | arithmetic a =>
      exact RollM.alike_bind (RollM.alike_liftM _) fun _ =>
        RollM.alike_bind (RollM.alike_liftM _) fun _ => RollM.alike_liftM _
    | test t =>
      exact RollM.alike_bind (RollM.alike_liftM _) fun _ =>
        RollM.alike_bind (RollM.alike_liftM _) fun _ => RollM.alike_pure _

end Operator

/-! ## Evaluation -/

namespace Expr

/-- Whether the operator of a node, if there is one, may have the roller roll dice. -/
def AsksRoller (e : Expr) : Prop := ∃ op, e.op? = some op ∧ op.asksRoller = true

theorem alike_of_memory {e : Expr} {v : Value} (h : e.memory = some v) :
    Alike R (e.evaluate : StateM (Context ρ) _) (e.evaluate : StateM (Context σ) _) := by
  intro ctx other hR
  rw [evaluate_of_memory h, evaluate_of_memory h]
  exact ⟨rfl, hR⟩

/-- Evaluations keep a relation that counting keeps, and that rolling keeps where there is an
operator that rolls. -/
theorem alike_evaluate (hcount : CountsAlike R) {e : Expr}
    (hroll : e.Everywhere fun x => x.AsksRoller → RollsAlike R) :
    Alike R (e.evaluate : StateM (Context ρ) _) (e.evaluate : StateM (Context σ) _) := by
  -- a node that remembers a value answers with it, any other evaluates its operands first
  induction e with
  | literal m l =>
    cases m with
    | none => exact alike_pure _
    | some v => exact alike_of_memory rfl
  | sign m s x ih =>
    cases m with
    | some v => exact alike_of_memory rfl
    | none =>
      obtain ⟨hroot, hx⟩ := everywhere_sign.mp hroll
      apply Alike.bind (ih hx)
      rintro ⟨c | v, x'⟩
      · exact alike_pure _
      · have happly := Operator.alike_apply hcount (.sign s) (fun h => hroot ⟨_, rfl, h⟩)
        exact Alike.bind (happly none (some v)) fun _ => alike_pure _
  | factorial m x ih =>
    cases m with
    | some v => exact alike_of_memory rfl
    | none =>
      obtain ⟨hroot, hx⟩ := everywhere_factorial.mp hroll
      apply Alike.bind (ih hx)
      rintro ⟨c | v, x'⟩
      · exact alike_pure _
      · have happly := Operator.alike_apply hcount .factorial (fun h => hroot ⟨_, rfl, h⟩)
        exact Alike.bind (happly (some v) none) fun _ => alike_pure _
  | binary m b x y ihx ihy =>
    cases m with
    | some v => exact alike_of_memory rfl
    | none =>
      obtain ⟨hroot, hx, hy⟩ := everywhere_binary.mp hroll
      apply Alike.bind (ihx hx)
      rintro ⟨c | v, x'⟩
      · exact alike_pure _
      · apply Alike.bind (ihy hy)
        rintro ⟨c | w, y'⟩
        · exact alike_pure _
        · have happly := Operator.alike_apply hcount (.binary b) (fun h => hroot ⟨_, rfl, h⟩)
          exact Alike.bind (happly (some v) (some w)) fun _ => alike_pure _

end Expr

namespace Formula

/-- Evaluations of a formula, if their contexts stand in the relation once nothing is counted. -/
theorem evaluate_alike (f : Formula) (hcount : CountsAlike R)
    (hroll : ∀ e, f.root = some e → e.Everywhere fun x => x.AsksRoller → RollsAlike R)
    {ctx : Context ρ} {other : Context σ} (hR : R ctx.reset other.reset) :
    (f.evaluate.run ctx).1 = (f.evaluate.run other).1 ∧
      R (f.evaluate.run ctx).2 (f.evaluate.run other).2 := by
  cases hroot : f.root with
  | none =>
    rw [evaluate_of_empty hroot, evaluate_of_empty hroot]
    exact ⟨rfl, hR⟩
  | some e =>
    obtain ⟨hfound, hlast⟩ := Expr.alike_evaluate hcount (hroll e hroot) ctx.reset other.reset hR
    rcases hrun : e.evaluate.run ctx.reset with ⟨⟨result, e'⟩, last⟩
    rcases hrun' : e.evaluate.run other.reset with ⟨⟨result', e''⟩, last'⟩
    rw [hrun, hrun'] at hfound hlast
    cases hfound
    rw [evaluate_of_root hroot hrun, evaluate_of_root hroot hrun']
    exact ⟨rfl, hlast⟩

/-- So do reports, which show the tree that an evaluation leaves. -/
theorem report_alike (f : Formula) (hcount : CountsAlike R)
    (hroll : ∀ e, f.root = some e → e.Everywhere fun x => x.AsksRoller → RollsAlike R)
    {ctx : Context ρ} {other : Context σ} (hR : R ctx.reset other.reset) :
    (f.report.run ctx).1 = (f.report.run other).1 ∧
      R (f.report.run ctx).2 (f.report.run other).2 := by
  obtain ⟨hfound, hlast⟩ := f.evaluate_alike hcount hroll hR
  rcases hrun : f.evaluate.run ctx with ⟨⟨result, f'⟩, last⟩
  rcases hrun' : f.evaluate.run other with ⟨⟨result', f''⟩, last'⟩
  rw [hrun, hrun'] at hfound hlast
  cases hfound
  rw [report_of_evaluate hrun, report_of_evaluate hrun']
  exact ⟨rfl, hlast⟩

end Formula

end DiceNotation
