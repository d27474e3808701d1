import DiceNotation.Proofs.Evaluation.Cases
import DiceNotation.Proofs.Expr.Subtrees
import Mathlib.Logic.ExistsUnique

/-!
# What an evaluation leaves behind

A tree is grounded if below a node that remembers a value all nodes do. An evaluation of a
grounded tree adds to what it remembers and takes nothing away. If it succeeds, every node
remembers a value. If it fails, it has stopped at one operator, and the nodes without a value are
those that it still had to come to: the operator, what is above it, and what is to the right.

* `Unfinished`: the nodes that an evaluation has not finished when it stops at a node.
* `Evaluates.keeps`: an evaluation takes nothing away.
* `Evaluates.grounded`: an evaluation leaves a grounded tree, so that it may be tried again.
* `Evaluates.stopsAt`: where an evaluation that fails has stopped.
* `Formula.memory_after_evaluate`: all that a formula remembers after an evaluation.
-/

namespace DiceNotation

/-! ## Nodes to come -/

/-- Whether a node is the one at which an evaluation stops, or above it, or in the right operand
of a node that has it in its left operand. Both are given by their paths. -/
def Unfinished (stop path : List Side) : Prop :=
  path <+: stop ∨
    ∃ above left right, stop = above ++ .left :: left ∧ path = above ++ .right :: right

namespace Unfinished

theorem root (stop : List Side) : Unfinished stop [] := .inl List.nil_prefix

theorem not_below {side : Side} {path : List Side} : ¬Unfinished [] (side :: path) := by
  rintro (h | ⟨above, left, right, h, -⟩)
  · cases List.prefix_nil.mp h
  · exact List.append_ne_nil_of_right_ne_nil above (List.cons_ne_nil _ left) h.symm

theorem beside (stop path : List Side) : Unfinished (.left :: stop) (.right :: path) :=
  .inr ⟨[], stop, path, rfl, rfl⟩

/-- The root decides only if the paths part there. -/
theorem cons_cons {s t : Side} {stop path : List Side} :
    Unfinished (s :: stop) (t :: path) ↔
      (t = s ∧ Unfinished stop path) ∨ (s = .left ∧ t = .right) := by
  constructor
  · rintro (h | ⟨above, left, right, hstop, hpath⟩)
    · obtain ⟨hst, hprefix⟩ := List.cons_prefix_cons.mp h
      exact .inl ⟨hst, .inl hprefix⟩
    · cases above with
      | nil =>
        cases hstop
        cases hpath
        exact .inr ⟨rfl, rfl⟩
      | cons u above =>
        cases hstop
        cases hpath
        exact .inl ⟨rfl, .inr ⟨above, left, right, rfl, rfl⟩⟩
  · rintro (⟨rfl, h | ⟨above, left, right, rfl, rfl⟩⟩ | ⟨rfl, rfl⟩)
    · exact .inl (List.cons_prefix_cons.mpr ⟨rfl, h⟩)
    · exact .inr ⟨t :: above, left, right, rfl, rfl⟩
    · exact beside stop path

theorem within {side : Side} {stop path : List Side} :
    Unfinished (side :: stop) (side :: path) ↔ Unfinished stop path := by
  rw [cons_cons]
  refine ⟨?_, fun h => .inl ⟨rfl, h⟩⟩
  rintro (⟨-, h⟩ | ⟨rfl, h⟩)
  · exact h
  · cases h

theorem not_before {stop path : List Side} : ¬Unfinished (.right :: stop) (.left :: path) := by
  rw [cons_cons]
  rintro (⟨h, -⟩ | ⟨h, -⟩) <;> cases h

/-- Of two nodes that wait for each other there is only one. -/
theorem antisymm {p q : List Side} (hpq : Unfinished p q) (hqp : Unfinished q p) : p = q := by
  induction p generalizing q with
  | nil =>
    cases q with
    | nil => rfl
    | cons t q => exact absurd hpq not_below
  | cons s p ih =>
    cases q with
    | nil => exact absurd hqp not_below
    | cons t q =>
      rcases cons_cons.mp hpq with ⟨rfl, hbelow⟩ | ⟨rfl, rfl⟩
      · rw [ih hbelow (within.mp hqp)]
      · exact absurd hqp not_before

end Unfinished

namespace Expr

/-! ## Trees that remember from below -/

/-- All nodes remember a value. -/
def Evaluated (e : Expr) : Prop := e.Everywhere (·.memory.isSome)

/-- Below a node that remembers a value, all nodes do. -/
def Grounded (e : Expr) : Prop := e.Everywhere fun x => x.memory.isSome → x.Evaluated

/-- Where an evaluation has stopped: at an operator that has no value although its operands have,
with no value at the nodes that had none before and were not finished, and only there. -/
structure StopsAt (before after : Expr) (stop : List Side) : Prop where
  at_operator : ∃ x, after.at? stop = some x ∧ x.op?.isSome ∧ x.memory = none ∧
    ∀ side y, x.operand? side = some y → y.memory.isSome
  memory_eq_none_iff : ∀ path x, after.at? path = some x →
    (x.memory = none ↔ before.memoryAt path = none ∧ Unfinished stop path)

theorem Evaluated.memory_ne_none {e x : Expr} {path : List Side} (h : e.Evaluated)
    (hx : e.at? path = some x) : x.memory ≠ none :=
  Option.isSome_iff_ne_none.mp (h x (mem_subtrees_of_at? hx))

/-- A root without a value asks nothing of the nodes below it. -/
theorem grounds_of_forgetful {e : Expr} (h : e.memory = none) :
    e.memory.isSome → e.Evaluated := by
  intro hsome
  rw [h] at hsome
  cases hsome

/-- An evaluation stops at one node only. -/
theorem StopsAt.unique {before after : Expr} {stop stop' : List Side}
    (h : StopsAt before after stop) (h' : StopsAt before after stop') : stop = stop' := by
  obtain ⟨x, hx, -, hmx, -⟩ := h.at_operator
  obtain ⟨x', hx', -, hmx', -⟩ := h'.at_operator
  have hunfinished : Unfinished stop stop' := ((h.memory_eq_none_iff stop' x' hx').mp hmx').2
  have hunfinished' : Unfinished stop' stop := ((h'.memory_eq_none_iff stop x hx).mp hmx).2
  exact hunfinished.antisymm hunfinished'

/-! ## Trees that remember more -/

/-- What one tree remembers, the other remembers at the same place. -/
def Keeps (e e' : Expr) : Prop :=
  ∀ path v, e.memoryAt path = some v → e'.memoryAt path = some v

section Keeps

variable {m : Option Value} {x x' y y' : Expr}

theorem Keeps.refl (e : Expr) : Keeps e e := fun _ _ hv => hv

theorem keeps_literal {l : Literal} : Keeps (literal none l) (literal m l) := by
  intro path v hv
  cases path with
  | nil => cases hv
  | cons side path => cases hv

theorem keeps_sign {s : Sign} (h : Keeps x x') : Keeps (sign none s x) (sign m s x') := by
  intro path v hv
  cases path with
  | nil => cases hv
  | cons side path =>
    rw [memoryAt_cons] at hv ⊢
    cases side with
    | left => cases hv
    | right => exact h path v hv

theorem keeps_factorial (h : Keeps x x') : Keeps (factorial none x) (factorial m x') := by
  intro path v hv
  cases path with
  | nil => cases hv
  | cons side path =>
    rw [memoryAt_cons] at hv ⊢
    cases side with
    | left => exact h path v hv
    | right => cases hv

theorem keeps_binary {b : BinaryOperator} (hx : Keeps x x') (hy : Keeps y y') :
    Keeps (binary none b x y) (binary m b x' y') := by
  intro path v hv
  cases path with
  | nil => cases hv
  | cons side path =>
    rw [memoryAt_cons] at hv ⊢
    cases side with
    | left => exact hx path v hv
    | right => exact hy path v hv

end Keeps

section Evaluation

variable {ρ : Type} [Roller ρ] {e e' : Expr} {result : Except RollError Value}
  {ctx last : Context ρ}

/-! ## What every evaluation keeps -/

theorem Evaluates.clear_eq (h : Evaluates e ctx result e' last) : e'.clear = e.clear := by
  induction h with
  | remembered => rfl
  | literal => rfl
  | sign _ _ ih | signFails _ ih | factorial _ _ ih | factorialFails _ ih =>
    rw [clear, clear, ih]
  | binary _ _ _ ihx ihy | rightFails _ _ ihx ihy => rw [clear, clear, ihx, ihy]
  | leftFails _ ih => rw [clear, clear, ih]

theorem Evaluates.keeps (h : Evaluates e ctx result e' last) : Keeps e e' := by
  induction h with
  | remembered => exact Keeps.refl _
  | literal l ctx => exact keeps_literal
  | sign _ _ ih | signFails _ ih => exact keeps_sign ih
  | factorial _ _ ih | factorialFails _ ih => exact keeps_factorial ih
  | binary _ _ _ ihx ihy | rightFails _ _ ihx ihy => exact keeps_binary ihx ihy
  | leftFails _ ih => exact keeps_binary ih (Keeps.refl _)

/-! ## Success -/

/-- After an evaluation that succeeds, every node remembers a value. -/
theorem Evaluates.evaluated (h : Evaluates e ctx result e' last) (he : e.Grounded) {v : Value}
    (hv : result = .ok v) : e'.Evaluated := by
  induction h generalizing v with
  | remembered hm => exact he.root (by rw [hm, Option.isSome_some])
  | literal l ctx => exact everywhere_literal.mpr rfl
  | sign _ _ ih =>
    subst hv
    exact everywhere_sign.mpr ⟨rfl, ih (everywhere_sign.mp he).2 rfl⟩
  | factorial _ _ ih =>
    subst hv
    exact everywhere_factorial.mpr ⟨rfl, ih (everywhere_factorial.mp he).2 rfl⟩
  | binary _ _ _ ihx ihy =>
    subst hv
    obtain ⟨-, hx, hy⟩ := everywhere_binary.mp he
    exact everywhere_binary.mpr ⟨rfl, ihx hx rfl, ihy hy rfl⟩
  | signFails | factorialFails | leftFails | rightFails => cases hv

/-- The tree that an evaluation leaves remembers a value at its root only if it succeeded. -/
theorem Evaluates.evaluated_of_memory (h : Evaluates e ctx result e' last) (he : e.Grounded)
    (hm : e'.memory.isSome) : e'.Evaluated := by
  rw [h.memory_eq] at hm
  cases hresult : result with
  | ok v => exact h.evaluated he hresult
  | error c =>
    rw [hresult] at hm
    cases hm

/-- An evaluation leaves a grounded tree, whether it succeeds or fails midway. -/
theorem Evaluates.grounded (h : Evaluates e ctx result e' last) (he : e.Grounded) :
    e'.Grounded := by
  induction h with
  | remembered => exact he
  | literal l ctx => exact everywhere_literal.mpr fun _ => everywhere_literal.mpr rfl
  | sign hx happly ih =>
    have hroot := (Evaluates.sign hx happly).evaluated_of_memory he
    exact everywhere_sign.mpr ⟨hroot, ih (everywhere_sign.mp he).2⟩
  | signFails hx ih =>
    exact everywhere_sign.mpr ⟨grounds_of_forgetful rfl, ih (everywhere_sign.mp he).2⟩
  | factorial hx happly ih =>
    have hroot := (Evaluates.factorial hx happly).evaluated_of_memory he
    exact everywhere_factorial.mpr ⟨hroot, ih (everywhere_factorial.mp he).2⟩
  | factorialFails hx ih =>
    exact everywhere_factorial.mpr ⟨grounds_of_forgetful rfl, ih (everywhere_factorial.mp he).2⟩
  | binary hx hy happly ihx ihy =>
    have hroot := (Evaluates.binary hx hy happly).evaluated_of_memory he
    obtain ⟨-, hgx, hgy⟩ := everywhere_binary.mp he
    exact everywhere_binary.mpr ⟨hroot, ihx hgx, ihy hgy⟩
  | leftFails hx ih =>
    obtain ⟨-, hgx, hgy⟩ := everywhere_binary.mp he
    exact everywhere_binary.mpr ⟨grounds_of_forgetful rfl, ih hgx, hgy⟩
  | rightFails hx hy ihx ihy =>
    obtain ⟨-, hgx, hgy⟩ := everywhere_binary.mp he
    exact everywhere_binary.mpr ⟨grounds_of_forgetful rfl, ihx hgx, ihy hgy⟩

/-! ## Failure -/

/-- The operator has failed on values that its operands have. -/
theorem stopsAt_root {before after : Expr} (hop : after.op?.isSome)
    (hbefore : before.memory = none) (hafter : after.memory = none)
    (h : ∀ side y, after.operand? side = some y → y.Evaluated) : StopsAt before after [] where
  at_operator := ⟨after, rfl, hop, hafter, fun side y hy => (h side y hy).root⟩
  memory_eq_none_iff := by
    intro path x hx
    cases path with
    | nil =>
      cases hx
      exact ⟨fun _ => ⟨hbefore, Unfinished.root []⟩, fun _ => hafter⟩
    | cons side path =>
      obtain ⟨y, hy, hbelow⟩ := Option.bind_eq_some_iff.mp hx
      have hsome : x.memory ≠ none := (h side y hy).memory_ne_none hbelow
      exact ⟨fun hnone => absurd hnone hsome, fun hwait => absurd hwait.2 Unfinished.not_below⟩

section Operand

variable {before after y y' : Expr} {stop : List Side}

/-- In the operand in which the evaluation has stopped, the same nodes are unfinished. -/
theorem StopsAt.within_operand {side : Side} (h : StopsAt y y' stop)
    (hy : before.operand? side = some y) (hy' : after.operand? side = some y') :
    (∃ x, after.at? (side :: stop) = some x ∧ x.op?.isSome ∧ x.memory = none ∧
      ∀ side z, x.operand? side = some z → z.memory.isSome) ∧
    ∀ path x, after.at? (side :: path) = some x →
      (x.memory = none ↔
        before.memoryAt (side :: path) = none ∧ Unfinished (side :: stop) (side :: path)) := by
  constructor
  · obtain ⟨x, hx, hrest⟩ := h.at_operator
    exact ⟨x, by rw [at?, hy', Option.bind_some, hx], hrest⟩
  · intro path x hx
    rw [at?, hy', Option.bind_some] at hx
    rw [memoryAt_cons, hy, Option.bind_some, Unfinished.within]
    exact h.memory_eq_none_iff path x hx

/-- The evaluation has stopped in the left operand, and has not come to the right one. -/
theorem stopsAt_left (hbefore : before.memory = none) (hafter : after.memory = none)
    (hy : before.operand? .left = some y) (hy' : after.operand? .left = some y')
    (h : StopsAt y y' stop) (hright : after.operand? .right = before.operand? .right) :
    StopsAt before after (.left :: stop) where
  at_operator := (h.within_operand hy hy').1
  memory_eq_none_iff := by
    intro path x hx
    cases path with
    | nil =>
      cases hx
      exact ⟨fun _ => ⟨hbefore, Unfinished.root _⟩, fun _ => hafter⟩
    | cons side path =>
      cases side with
      | left => exact (h.within_operand hy hy').2 path x hx
      | right =>
        have hsame : before.memoryAt (.right :: path) = x.memory := by
          rw [← memoryAt_of_at? hx, memoryAt_cons, memoryAt_cons, hright]
        rw [hsame]
        exact ⟨fun hnone => ⟨hnone, Unfinished.beside stop path⟩, And.left⟩

/-- The evaluation has stopped in the right operand, after the left one was evaluated. -/
theorem stopsAt_right (hbefore : before.memory = none) (hafter : after.memory = none)
    (hy : before.operand? .right = some y) (hy' : after.operand? .right = some y')
    (h : StopsAt y y' stop) (hleft : ∀ z, after.operand? .left = some z → z.Evaluated) :
    StopsAt before after (.right :: stop) where
  at_operator := (h.within_operand hy hy').1
  memory_eq_none_iff := by
    intro path x hx
    cases path with
    | nil =>
      cases hx
      exact ⟨fun _ => ⟨hbefore, Unfinished.root _⟩, fun _ => hafter⟩
    | cons side path =>
      cases side with
      | left =>
        obtain ⟨z, hz, hbelow⟩ := Option.bind_eq_some_iff.mp hx
        have hsome : x.memory ≠ none := (hleft z hz).memory_ne_none hbelow
        exact ⟨fun hnone => absurd hnone hsome,
          fun hwait => absurd hwait.2 Unfinished.not_before⟩
      | right => exact (h.within_operand hy hy').2 path x hx

end Operand

/-- An evaluation that fails has stopped at an operator. -/
theorem Evaluates.stopsAt (h : Evaluates e ctx result e' last) (he : e.Grounded) {c : RollError}
    (hc : result = .error c) : ∃ stop, StopsAt e e' stop := by
  induction h generalizing c with
  | remembered => cases hc
  | literal => cases hc
  | sign hx _ _ =>
    subst hc
    have hvalue := hx.evaluated (everywhere_sign.mp he).2 rfl
    refine ⟨[], stopsAt_root rfl rfl rfl ?_⟩
    intro side y hy
    cases side <;> cases hy
    exact hvalue
  | signFails hx ih =>
    obtain ⟨stop, hstop⟩ := ih (everywhere_sign.mp he).2 rfl
    exact ⟨_, stopsAt_right rfl rfl rfl rfl hstop nofun⟩
  | factorial hx _ _ =>
    subst hc
    have hvalue := hx.evaluated (everywhere_factorial.mp he).2 rfl
    refine ⟨[], stopsAt_root rfl rfl rfl ?_⟩
    intro side y hy
    cases side <;> cases hy
    exact hvalue
  | factorialFails hx ih =>
    obtain ⟨stop, hstop⟩ := ih (everywhere_factorial.mp he).2 rfl
    exact ⟨_, stopsAt_left rfl rfl rfl rfl hstop rfl⟩
  | binary hx hy _ _ _ =>
    subst hc
    obtain ⟨-, hgx, hgy⟩ := everywhere_binary.mp he
    have hleft := hx.evaluated hgx rfl
    have hright := hy.evaluated hgy rfl
    refine ⟨[], stopsAt_root rfl rfl rfl ?_⟩
    intro side z hz
    cases side <;> cases hz
    · exact hleft
    · exact hright
  | leftFails hx ih =>
    obtain ⟨-, hgx, -⟩ := everywhere_binary.mp he
    obtain ⟨stop, hstop⟩ := ih hgx rfl
    exact ⟨_, stopsAt_left rfl rfl rfl rfl hstop rfl⟩
  | rightFails hx hy _ ih =>
    obtain ⟨-, hgx, hgy⟩ := everywhere_binary.mp he
    have hleft := hx.evaluated hgx rfl
    obtain ⟨stop, hstop⟩ := ih hgy rfl
    refine ⟨_, stopsAt_right rfl rfl rfl rfl hstop ?_⟩
    intro z hz
    cases hz
    exact hleft

end Evaluation

end Expr

/-! ## Formulas -/

namespace Formula

def Evaluated (f : Formula) : Prop := ∀ e, f.root = some e → e.Evaluated

def Grounded (f : Formula) : Prop := ∀ e, f.root = some e → e.Grounded

/-- The value that the node at the end of a path remembers. -/
def memoryAt (f : Formula) (path : List Side) : Option Value := f.root.bind (·.memoryAt path)

variable {ρ : Type} [Roller ρ]

/-- A formula in which every node remembers its value gives that value again without rolling. -/
theorem evaluate_of_evaluated {f : Formula} {v : Value} (h : f.memory = some v)
    (ctx : Context ρ) : f.evaluate.run ctx = ((.ok v.collapse, f), ctx.reset) := by
  obtain ⟨e, hroot, hv⟩ := Option.bind_eq_some_iff.mp h
  rw [evaluate_of_root hroot (Expr.evaluate_of_memory hv _), ← hroot]
  rfl

/-- An evaluation changes the shape of no formula and no value that is remembered. If it succeeds,
everything is remembered and the next evaluation gives the same total, whatever the context,
without rolling. If it fails, it has stopped at exactly one operator. -/
theorem memory_after_evaluate {f f' : Formula} {result : Except RollError Number}
    {ctx last : Context ρ} (hf : f.Grounded)
    (h : f.evaluate.run ctx = ((result, f'), last)) :
    f'.clear = f.clear ∧ f'.Grounded ∧
      (∀ path v, f.memoryAt path = some v → f'.memoryAt path = some v) ∧
      (∀ total, result = .ok total → f'.Evaluated ∧ ∀ {σ : Type} [Roller σ] (other : Context σ),
        f'.evaluate.run other = ((.ok total, f'), other.reset)) ∧
      ∀ c, result = .error c → ∃ root root', f.root = some root ∧ f'.root = some root' ∧
        ∃! stop, root.StopsAt root' stop := by
  rcases f.evaluate_cases ctx with ⟨hroot, hrun⟩ | ⟨e, found, e', last', hroot, he, hrun⟩
  · cases h.symm.trans hrun
    have hevaluated : f.Evaluated := by
      intro e he
      rw [hroot] at he
      cases he
    refine ⟨rfl, hf, fun _ _ hv => hv, ?_, ?_⟩
    · rintro total ⟨⟩
      exact ⟨hevaluated, fun other => evaluate_of_empty hroot other⟩
    · intro c hc
      cases hc
  · cases h.symm.trans hrun
    have hground : e.Grounded := hf e hroot
    refine ⟨?_, ?_, ?_, ?_, ?_⟩
    · rw [clear, clear, hroot, Option.map_some, Option.map_some, he.clear_eq]
    · rintro x ⟨⟩
      exact he.grounded hground
    · intro path v hv
      rw [memoryAt, hroot] at hv
      exact he.keeps path v hv
    · intro total htotal
      cases found with
      | error c => cases htotal
      | ok v =>
        cases htotal
        have hvalue : Formula.memory ⟨some e'⟩ = some v := he.memory_eq
        refine ⟨?_, fun other => evaluate_of_evaluated hvalue other⟩
        rintro x ⟨⟩
        exact he.evaluated hground rfl
    · intro c hc
      cases found with
      | ok v => cases hc
      | error c' =>
        obtain ⟨stop, hstop⟩ := he.stopsAt hground rfl
        exact ⟨e, e', hroot, rfl, stop, hstop, fun other hother => hother.unique hstop⟩

/-- In `1d6+4/0*1d6` the first dice are remembered and the division fails: the roll is kept, and
the other dice are not rolled. -/
theorem memory_after_evaluate_division :
    let rolled : Value := .roll (.of [.int 3] (.sides ⟨6, by decide, by decide⟩))
    let dice : Expr := .binary (some rolled) (.dice .plain)
      (.literal (some (.number (.int 1))) (.int 1)) (.literal (some (.number (.int 6))) (.int 6))
    let f : Formula := ⟨some (.binary none (.arithmetic .plus) dice
      (.binary none (.arithmetic .times)
        (.binary none (.arithmetic .dividedBy) (.int 4) (.int 0))
        (.binary none (.dice .plain) (.int 1) (.int 6))))⟩
    let run := f.evaluate.run (Context.start (some 10) (⟨[4], .constant 1⟩ : Script))
    f.Grounded ∧ run.1.1 = .error (.arithmetic .divisionByZero) ∧
      run.1.2.memoryAt [.left] = some rolled ∧ run.1.2.memoryAt [.right, .left] = none ∧
      ∃ root root', f.root = some root ∧ run.1.2.root = some root' ∧
        ∃! stop, root.StopsAt root' stop := by
  intro rolled dice f run
  have hf : f.Grounded := by
    rintro e ⟨⟩
    simp [Expr.Grounded, Expr.Evaluated, Expr.everywhere_binary, Expr.everywhere_literal,
      Expr.memory, Expr.int, dice]
  obtain ⟨-, -, hkeep, -, hfail⟩ := memory_after_evaluate hf (rfl : _ = (run.1, run.2))
  exact ⟨hf, rfl, hkeep [.left] rolled rfl, rfl, hfail _ rfl⟩

end Formula

end DiceNotation
