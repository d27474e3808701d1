import DiceNotation.Proofs.Evaluation.Cases
import DiceNotation.Proofs.Expr.Subtrees
import DiceNotation.Proofs.Mode.Rewriting

/-!
# Memory that is up to date

A tree is settled if each value that it remembers could be found again: a literal remembers
itself, and an operator remembers what it makes of the values that its operands remember.

* `Settled.isSome_memory`: below a node that remembers a value, all nodes do.
* `Evaluates.settled`: an evaluation leaves a settled tree, also one that fails midway.
* `Settled.raise`: raising dice operators forgets what it makes outdated.
-/

namespace DiceNotation

/-- Whether an operator can make a value of its operands, in some context. -/
def Operator.Yields (op : Operator) (left right : Option Value) (v : Value) : Prop :=
  ∃ (ρ : Type) (_ : Roller ρ) (ctx : Context ρ),
    ((op.apply left right : RollM ρ Value).run.run ctx).1 = .ok v

namespace Expr

/-- Whether the root may remember a value, by what its operands remember. -/
def Justifies : Expr → Value → Prop
  | literal _ l, v => v = l.toValue
  | sign _ s x, v => (Operator.sign s).Yields none x.memory v
  | factorial _ x, v => Operator.factorial.Yields x.memory none v
  | binary _ b x y, v => (Operator.binary b).Yields x.memory y.memory v

/-- What the root remembers, if anything, is up to date. -/
def IsCurrent (e : Expr) : Prop :=
  ∀ v, e.memory = some v → (∀ x ∈ e.operands, x.memory.isSome) ∧ e.Justifies v

/-- All that a tree remembers is up to date. -/
def Settled (e : Expr) : Prop := e.Everywhere IsCurrent

theorem isCurrent_of_forgetful {e : Expr} (h : e.memory = none) : e.IsCurrent := by
  intro v hv
  rw [h] at hv
  cases hv

/-- Below a node that remembers a value, all nodes do. -/
theorem Settled.isSome_memory {e : Expr} (h : e.Settled) (hm : e.memory.isSome) :
    ∀ x ∈ e.subtrees, x.memory.isSome := by
  obtain ⟨v, hv⟩ := Option.isSome_iff_exists.mp hm
  have hroot := (h e e.mem_subtrees_self v hv).1
  induction e generalizing v with
  | literal m l => exact List.forall_mem_singleton.mpr hm
  | sign m s x ih =>
    have hx := hroot x List.mem_cons_self
    obtain ⟨w, hw⟩ := Option.isSome_iff_exists.mp hx
    have hs := (everywhere_sign.mp h).2
    exact List.forall_mem_cons.mpr ⟨hm, ih hs hx w hw (hs x x.mem_subtrees_self w hw).1⟩
  | factorial m x ih =>
    have hx := hroot x List.mem_cons_self
    obtain ⟨w, hw⟩ := Option.isSome_iff_exists.mp hx
    have hs := (everywhere_factorial.mp h).2
    exact List.forall_mem_cons.mpr ⟨hm, ih hs hx w hw (hs x x.mem_subtrees_self w hw).1⟩
  | binary m b x y ihx ihy =>
    have hx := hroot x List.mem_cons_self
    have hy := hroot y (List.mem_cons_of_mem x List.mem_cons_self)
    obtain ⟨w, hw⟩ := Option.isSome_iff_exists.mp hx
    obtain ⟨w', hw'⟩ := Option.isSome_iff_exists.mp hy
    obtain ⟨-, hsx, hsy⟩ := everywhere_binary.mp h
    refine List.forall_mem_cons.mpr ⟨hm, List.forall_mem_append.mpr ⟨?_, ?_⟩⟩
    · exact ihx hsx hx w hw (hsx x x.mem_subtrees_self w hw).1
    · exact ihy hsy hy w' hw' (hsy y y.mem_subtrees_self w' hw').1

/-! ## Forgetting -/

theorem settled_clear (e : Expr) : e.clear.Settled := by
  induction e with
  | literal m l => exact everywhere_literal.mpr (isCurrent_of_forgetful rfl)
  | sign m s x ih => exact everywhere_sign.mpr ⟨isCurrent_of_forgetful rfl, ih⟩
  | factorial m x ih => exact everywhere_factorial.mpr ⟨isCurrent_of_forgetful rfl, ih⟩
  | binary m b x y ihx ihy =>
    exact everywhere_binary.mpr ⟨isCurrent_of_forgetful rfl, ihx, ihy⟩

/-! ## Evaluation -/

section Evaluation

variable {ρ : Type} [Roller ρ] {result : Except RollError Value} {ctx last : Context ρ}

theorem isCurrent_literal (l : Literal) : (literal (some l.toValue) l).IsCurrent := by
  intro v hv
  cases hv
  exact ⟨fun x hx => absurd hx List.not_mem_nil, rfl⟩

/-- A value that an operator has just been found to have is what it may remember. -/
theorem yields_of_run {op : Operator} {left right : Option Value} {v : Value}
    (h : (op.apply left right).run.run ctx = (result, last)) (hv : result.toOption = some v) :
    op.Yields left right v := by
  refine ⟨ρ, inferInstance, ctx, ?_⟩
  rw [h]
  cases result with
  | error c => cases hv
  | ok w =>
    cases hv
    rfl

theorem isCurrent_sign {s : Sign} {x : Expr} {v : Value} (hx : x.memory = some v)
    (h : ((Operator.sign s).apply none (some v)).run.run ctx = (result, last)) :
    (sign result.toOption s x).IsCurrent := by
  intro w hw
  refine ⟨List.forall_mem_singleton.mpr (by rw [hx, Option.isSome_some]), ?_⟩
  rw [Justifies, hx]
  exact yields_of_run h hw

theorem isCurrent_factorial {x : Expr} {v : Value} (hx : x.memory = some v)
    (h : (Operator.factorial.apply (some v) none).run.run ctx = (result, last)) :
    (factorial result.toOption x).IsCurrent := by
  intro w hw
  refine ⟨List.forall_mem_singleton.mpr (by rw [hx, Option.isSome_some]), ?_⟩
  rw [Justifies, hx]
  exact yields_of_run h hw

theorem isCurrent_binary {b : BinaryOperator} {x y : Expr} {v w : Value}
    (hx : x.memory = some v) (hy : y.memory = some w)
    (h : ((Operator.binary b).apply (some v) (some w)).run.run ctx = (result, last)) :
    (binary result.toOption b x y).IsCurrent := by
  intro u hu
  refine ⟨?_, ?_⟩
  · refine List.forall_mem_cons.mpr ⟨by rw [hx, Option.isSome_some], ?_⟩
    exact List.forall_mem_singleton.mpr (by rw [hy, Option.isSome_some])
  · rw [Justifies, hx, hy]
    exact yields_of_run h hu

/-- An evaluation leaves a settled tree, whether it succeeds or fails midway. -/
theorem Evaluates.settled {e e' : Expr} (h : Evaluates e ctx result e' last)
    (he : e.Settled) : e'.Settled := by
  induction h with
  | remembered hm => exact he
  | literal l ctx => exact everywhere_literal.mpr (isCurrent_literal l)
  | sign hx happly ih =>
    exact everywhere_sign.mpr ⟨isCurrent_sign hx.memory_eq happly, ih (everywhere_sign.mp he).2⟩
  | signFails hx ih =>
    exact everywhere_sign.mpr ⟨isCurrent_of_forgetful rfl, ih (everywhere_sign.mp he).2⟩
  | factorial hx happly ih =>
    exact everywhere_factorial.mpr
      ⟨isCurrent_factorial hx.memory_eq happly, ih (everywhere_factorial.mp he).2⟩
  | factorialFails hx ih =>
    exact everywhere_factorial.mpr ⟨isCurrent_of_forgetful rfl, ih (everywhere_factorial.mp he).2⟩
  | binary hx hy happly ihx ihy =>
    obtain ⟨-, hsx, hsy⟩ := everywhere_binary.mp he
    exact everywhere_binary.mpr
      ⟨isCurrent_binary hx.memory_eq hy.memory_eq happly, ihx hsx, ihy hsy⟩
  | leftFails hx ih =>
    obtain ⟨-, hsx, hsy⟩ := everywhere_binary.mp he
    exact everywhere_binary.mpr ⟨isCurrent_of_forgetful rfl, ih hsx, hsy⟩
  | rightFails hx hy ihx ihy =>
    obtain ⟨-, hsx, hsy⟩ := everywhere_binary.mp he
    exact everywhere_binary.mpr ⟨isCurrent_of_forgetful rfl, ihx hsx, ihy hsy⟩

end Evaluation

/-! ## Raising -/

theorem raise_of_unchanged {kind : DiceKind} {e : Expr} (h : e.isChangedBy kind = false) :
    e.raise kind = e := by
  have hmemory : (if e.isChangedBy kind then none else e.memory) = e.memory := by
    rw [h, if_neg Bool.false_ne_true]
  induction e with
  | literal m l => rw [raise, hmemory, memory]
  | sign m s x ih =>
    have hx : x.isChangedBy kind = false := h
    rw [raise, hmemory, memory, ih hx (by rw [hx, if_neg Bool.false_ne_true])]
  | factorial m x ih =>
    have hx : x.isChangedBy kind = false := h
    rw [raise, hmemory, memory, ih hx (by rw [hx, if_neg Bool.false_ne_true])]
  | binary m b x y ihx ihy =>
    have hparts := h
    rw [isChangedBy, Bool.or_eq_false_iff, Bool.or_eq_false_iff, bne_eq_false_iff_eq] at hparts
    obtain ⟨⟨hb, hx⟩, hy⟩ := hparts
    rw [raise, hmemory, memory, hb, ihx hx (by rw [hx, if_neg Bool.false_ne_true]),
      ihy hy (by rw [hy, if_neg Bool.false_ne_true])]

theorem memory_raise_of_changed {kind : DiceKind} {e : Expr} (h : e.isChangedBy kind = true) :
    (e.raise kind).memory = none := by
  cases e <;> rw [raise, h, if_pos rfl, memory]

/-- Raising keeps what is still up to date and forgets the rest. -/
theorem IsCurrent.raise {e : Expr} (h : e.IsCurrent) (kind : DiceKind) :
    (e.raise kind).IsCurrent := by
  cases hchange : e.isChangedBy kind with
  | false => rwa [raise_of_unchanged hchange]
  | true => exact isCurrent_of_forgetful (memory_raise_of_changed hchange)

theorem Settled.raise {e : Expr} (h : e.Settled) (kind : DiceKind) : (e.raise kind).Settled := by
  induction e with
  | literal m l => exact everywhere_literal.mpr ((everywhere_literal.mp h).raise kind)
  | sign m s x ih =>
    obtain ⟨hroot, hx⟩ := everywhere_sign.mp h
    exact everywhere_sign.mpr ⟨hroot.raise kind, ih hx⟩
  | factorial m x ih =>
    obtain ⟨hroot, hx⟩ := everywhere_factorial.mp h
    exact everywhere_factorial.mpr ⟨hroot.raise kind, ih hx⟩
  | binary m b x y ihx ihy =>
    obtain ⟨hroot, hx, hy⟩ := everywhere_binary.mp h
    exact everywhere_binary.mpr ⟨hroot.raise kind, ihx hx, ihy hy⟩

theorem Settled.applyMode {e : Expr} (h : e.Settled) (m : Mode) : (e.applyMode m).Settled := by
  rw [applyMode_eq_foldl]
  induction m.kinds generalizing e with
  | nil => exact h
  | cons kind kinds ih => exact ih (h.raise kind)

end Expr

end DiceNotation
