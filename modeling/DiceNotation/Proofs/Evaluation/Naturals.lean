import DiceNotation.Proofs.Evaluation.Draws
import DiceNotation.Proofs.Evaluation.Accounts
import DiceNotation.Proofs.Mode.Luck
import DiceNotation.Proofs.Roll.Naturals

/-!
# Natural twenties and ones

A formula is critical if a twenty-sided die shows a twenty at the end. That twenty was drawn, unless
an operator of the formula put it in the place of something else: the bound of `f` or `c` may be a
twenty. A one, with which a formula fails, may also come from `t` or `T`, which count a success as
1.

* `Expr.PutsOnD20`: the nodes that put a number on a twenty-sided die.
* `Expr.Evaluates.isNatural`: what all remembered rolls show is drawn or put there below them.
* `Formula.naturals_of_evaluate`: the twenties and ones of a whole formula.
-/

namespace DiceNotation

namespace Expr

/-- Whether the operator at the root has put a number in the place of a value of a twenty-sided
die. -/
def PutsOnD20 (x : Number) : Expr → Prop
  | binary _ (.modifier m) left right => ∃ r w, left.memory = some (.roll r) ∧
    right.memory = some w ∧ r.die.isD20 = true ∧ m.Puts x r w.collapse
  | _ => False

variable {ρ : Type} {k : UInt32}

/-- Whether a roll that the root remembers shows a side of a twenty-sided die only if it was drawn
or some operator of the tree has put it there. -/
def IsNatural (k : UInt32) (record : Recorded ρ) (e : Expr) : Prop :=
  ∀ r, e.memory = some (.roll r) → r.ShowsOnD20 (.onSide k) →
    record.Drew k ∨ ∃ x ∈ e.subtrees, x.PutsOnD20 (.onSide k)

theorem memory_of_mem_subtrees {x e : Expr} (he : e.clear = e) (hx : x ∈ e.subtrees) :
    x.memory = none := by
  rw [← he, subtrees_clear] at hx
  obtain ⟨y, -, rfl⟩ := List.mem_map.mp hx
  exact y.memory_clear

theorem isNatural_of_forgetful {e : Expr} (h : e.memory = none) (record : Recorded ρ) :
    e.IsNatural k record := by
  intro r hr
  rw [h] at hr
  cases hr

/-- The rolls that count are remembered somewhere. -/
theorem exists_of_mem_outerRolls {e : Expr} {r : Roll} (h : r ∈ e.outerRolls) :
    ∃ x ∈ e.subtrees, x.memory = some (.roll r) := by
  have root {e : Expr} {v : Value} {r' : Roll} (hv : e.memory = some v) (hroll : v.roll? = some r')
      (hr : r ∈ [r']) : ∃ x ∈ e.subtrees, x.memory = some (.roll r) := by
    cases List.mem_singleton.mp hr
    cases v <;> cases hroll
    exact ⟨e, e.mem_subtrees_self, hv⟩
  induction e with
  | literal m l =>
    obtain ⟨v, rfl, hv⟩ := Option.bind_eq_some_iff.mp (Option.mem_toList.mp h)
    exact root rfl hv List.mem_cons_self
  | sign m s x ih | factorial m x ih =>
    rw [outerRolls] at h
    split at h
    · next r' hr' =>
      obtain ⟨v, rfl, hv⟩ := Option.bind_eq_some_iff.mp hr'
      exact root rfl hv h
    · obtain ⟨y, hy, hmemory⟩ := ih h
      exact ⟨y, List.mem_cons_of_mem _ hy, hmemory⟩
  | binary m b x y ihx ihy =>
    rw [outerRolls] at h
    split at h
    · next r' hr' =>
      obtain ⟨v, rfl, hv⟩ := Option.bind_eq_some_iff.mp hr'
      exact root rfl hv h
    · rcases List.mem_append.mp h with hx | hy
      · obtain ⟨z, hz, hmemory⟩ := ihx hx
        exact ⟨z, List.mem_cons_of_mem _ (List.mem_append_left _ hz), hmemory⟩
      · obtain ⟨z, hz, hmemory⟩ := ihy hy
        exact ⟨z, List.mem_cons_of_mem _ (List.mem_append_right _ hz), hmemory⟩

/-! ## Evaluation -/

variable [Roller ρ] {ctx last : Context (Recorded ρ)} {result : Except RollError Value}

/-- Whether the dice of the root, if there are any, are rolled. -/
def RollsDice (e : Expr) : Prop :=
  ∀ kind, e.op? = some (.binary (.dice kind)) → kind.isRolled = true

theorem Everywhere.isNatural_leads {e : Expr} (h : e.Everywhere (IsNatural k ctx.roller))
    (hlead : ctx.Leads last) : e.Everywhere (IsNatural k last.roller) := by
  intro x hx r hr hshows
  exact (h x hx r hr hshows).imp_left (·.leads hlead)

/-- What an operator comes to is natural, if the values that an operator on rolls leaves are. -/
theorem isNatural_of_run {op : Operator} {left right : Option Value} {e : Expr}
    (he : e.op? = some op) (hdice : e.RollsDice)
    (h : (op.apply left right).run.run ctx = (result, last)) (hmemory : e.memory = result.toOption)
    (hmodifier : ∀ m, op = .binary (.modifier m) → ∀ after,
      m.Explains left right k after last.roller → after.ShowsOnD20 (.onSide k) →
        last.roller.Drew k ∨ ∃ x ∈ e.subtrees, x.PutsOnD20 (.onSide k)) :
    e.IsNatural k last.roller := by
  intro r hr hshows
  rw [hmemory] at hr
  cases result with
  | error c => cases hr
  | ok v =>
    cases hr
    have hrolled : ∀ kind, op = .binary (.dice kind) → kind.isRolled = true := by
      rintro kind rfl
      exact hdice kind he
    rcases Operator.leaves_apply hrolled left right k ctx _ last h r rfl hshows with
      hdrew | ⟨m, hm, hexplains⟩
    · exact .inl hdrew
    · exact hmodifier m hm r hexplains hshows

theorem isNatural_binary {b : BinaryOperator} {x y : Expr} {v w : Value}
    (hdice : (binary result.toOption b x y).RollsDice)
    (h : ((Operator.binary b).apply (some v) (some w)).run.run ctx = (result, last))
    (hx : x.memory = some v) (hy : y.memory = some w) (hnatural : x.IsNatural k last.roller) :
    (binary result.toOption b x y).IsNatural k last.roller := by
  refine isNatural_of_run rfl hdice h rfl ?_
  rintro m hm after ⟨r, w', hr, hw, hexplains⟩ hshows
  obtain rfl : b = .modifier m := Operator.binary.inj hm
  cases hr
  cases hw
  rcases hexplains hshows with hbefore | ⟨hdie, hputs⟩ | hdrew
  · refine (hnatural r hx hbefore).imp_right fun hputs => ?_
    obtain ⟨z, hz, hputs⟩ := hputs
    exact ⟨z, List.mem_cons_of_mem _ (List.mem_append_left _ hz), hputs⟩
  · exact .inr ⟨_, mem_subtrees_self _, r, w, hx, hy, hdie, hputs⟩
  · exact .inl hdrew

/-- Where all dice are rolled, an evaluation leaves only natural rolls, even where it fails. -/
theorem Evaluates.isNatural {e e' : Expr} (h : Evaluates e ctx result e' last)
    (hdice : e.Everywhere RollsDice) (he : e.Everywhere (IsNatural k ctx.roller)) :
    e'.Everywhere (IsNatural k last.roller) := by
  induction h with
  | remembered hmemory => exact he
  | literal l ctx =>
    refine everywhere_literal.mpr fun r hr => ?_
    cases l <;> cases hr
  | sign hx happly ih =>
    have hx' := ih (everywhere_sign.mp hdice).2 (everywhere_sign.mp he).2
    have hlead := (Operator.applies_of_run happly).leads
    exact everywhere_sign.mpr
      ⟨isNatural_of_run rfl nofun happly rfl nofun, hx'.isNatural_leads hlead⟩
  | signFails hx ih =>
    have hx' := ih (everywhere_sign.mp hdice).2 (everywhere_sign.mp he).2
    exact everywhere_sign.mpr ⟨isNatural_of_forgetful rfl _, hx'⟩
  | factorial hx happly ih =>
    have hx' := ih (everywhere_factorial.mp hdice).2 (everywhere_factorial.mp he).2
    have hlead := (Operator.applies_of_run happly).leads
    exact everywhere_factorial.mpr
      ⟨isNatural_of_run rfl nofun happly rfl nofun, hx'.isNatural_leads hlead⟩
  | factorialFails hx ih =>
    have hx' := ih (everywhere_factorial.mp hdice).2 (everywhere_factorial.mp he).2
    exact everywhere_factorial.mpr ⟨isNatural_of_forgetful rfl _, hx'⟩
  | binary hx hy happly ihx ihy =>
    obtain ⟨hroot, hdx, hdy⟩ := everywhere_binary.mp hdice
    obtain ⟨-, hex, hey⟩ := everywhere_binary.mp he
    have hlead := (Operator.applies_of_run happly).leads
    have hx' := (ihx hdx hex).isNatural_leads (hy.leads.trans hlead)
    have hy' := (ihy hdy (hey.isNatural_leads hx.leads)).isNatural_leads hlead
    exact everywhere_binary.mpr
      ⟨isNatural_binary hroot happly hx.memory_eq hy.memory_eq hx'.root, hx', hy'⟩
  | leftFails hx ih =>
    obtain ⟨-, hdx, hdy⟩ := everywhere_binary.mp hdice
    obtain ⟨-, hex, hey⟩ := everywhere_binary.mp he
    exact everywhere_binary.mpr
      ⟨isNatural_of_forgetful rfl _, ih hdx hex, hey.isNatural_leads hx.leads⟩
  | rightFails hx hy ihx ihy =>
    obtain ⟨-, hdx, hdy⟩ := everywhere_binary.mp hdice
    obtain ⟨-, hex, hey⟩ := everywhere_binary.mp he
    exact everywhere_binary.mpr ⟨isNatural_of_forgetful rfl _,
      (ihx hdx hex).isNatural_leads hy.leads, ihy hdy (hey.isNatural_leads hx.leads)⟩

end Expr

/-! ## Formulas -/

namespace Formula

theorem exists_of_showsOnD20 {f : Formula} {x : Number} (h : f.showsOnD20 x = true) :
    ∃ e r, f.root = some e ∧ r ∈ e.outerRolls ∧ r.ShowsOnD20 x := by
  unfold showsOnD20 at h
  obtain ⟨r, hr, hshows⟩ := List.any_eq_true.mp h
  obtain ⟨hdie, hany⟩ := Bool.and_eq_true_iff.mp hshows
  cases hroot : f.root with
  | none =>
    rw [hroot] at hr
    cases hr
  | some e =>
    rw [hroot] at hr
    exact ⟨e, r, rfl, hr, hdie, List.any_eq_true.mp hany⟩

variable {ρ : Type} [Roller ρ]

/-- Where a number on a twenty-sided die comes from: it was drawn in the evaluation of `f`, or an
operator of the evaluated formula `g` has put it there. -/
def Explained (f g : Formula) (ctx : Context ρ) (side : UInt32) : Prop :=
  (∃ s : Sides, s.count = 20 ∧ (s, side) ∈ f.draws ctx) ∨
    ∃ e, g.root = some e ∧ ∃ x ∈ e.subtrees, x.PutsOnD20 (.onSide side)

variable {f g : Formula} {ctx last : Context ρ} {total : Number}

theorem explained_of_showsOnD20 (hf : f.clear = f)
    (hdice : f.OperatorsAre fun op =>
      ∀ kind, op = .binary (.dice kind) → kind = .plain ∨ kind = .critical)
    (h : f.evaluate.run ctx = ((.ok total, g), last)) (side : UInt32)
    (hshows : g.showsOnD20 (.onSide side) = true) : f.Explained g ctx side := by
  have hmirror := f.mirrors_evaluate ctx.recording
  rw [Context.unrecorded_recording, h] at hmirror
  obtain ⟨e', r, hroot', hr, hd20⟩ := exists_of_showsOnD20 hshows
  rcases f.evaluate_cases ctx.recording with
    ⟨hroot, hrun⟩ | ⟨e, result, e'', last', hroot, he, hrun⟩
  · rw [hrun] at hmirror
    obtain rfl : g = f := congrArg (·.1.2) hmirror
    rw [hroot] at hroot'
    cases hroot'
  · rw [hrun] at hmirror
    obtain rfl : g = ⟨some e''⟩ := congrArg (·.1.2) hmirror
    cases hroot'
    have hdraws : f.draws ctx = last'.roller.record.reverse := by rw [draws, hrun]
    have hclear : e.clear = e := by
      have hrootclear : f.clear.root = f.root := congrArg root hf
      rw [clear, hroot] at hrootclear
      exact Option.some.inj hrootclear
    have hrolls : e.Everywhere Expr.RollsDice := by
      intro x hx kind hkind
      rcases hdice e hroot x hx _ hkind kind rfl with rfl | rfl <;> rfl
    have hstart : e.Everywhere (Expr.IsNatural side ctx.recording.reset.roller) := fun x hx =>
      Expr.isNatural_of_forgetful (Expr.memory_of_mem_subtrees hclear hx) _
    obtain ⟨x, hx, hmemory⟩ := Expr.exists_of_mem_outerRolls hr
    rcases he.isNatural hrolls hstart x hx r hmemory hd20 with ⟨s, hcount, hdrawn⟩ | ⟨y, hy, hputs⟩
    · exact .inl ⟨s, hcount, hdraws ▸ List.mem_reverse.mpr hdrawn⟩
    · exact .inr ⟨e', rfl, y, Expr.mem_subtrees_trans hy hx, hputs⟩

/-- In a successful evaluation whose dice are all rolled, a twenty with which it is critical and a
one with which it fails were drawn on a twenty-sided die, or an operator of the formula has put them
in the place of what was drawn. -/
theorem naturals_of_evaluate (hf : f.clear = f)
    (hdice : f.OperatorsAre fun op =>
      ∀ kind, op = .binary (.dice kind) → kind = .plain ∨ kind = .critical)
    (h : f.evaluate.run ctx = ((.ok total, g), last)) :
    (g.isCritical = true → f.Explained g ctx 20) ∧ (g.isFail = true → f.Explained g ctx 1) :=
  ⟨explained_of_showsOnD20 hf hdice h 20, explained_of_showsOnD20 hf hdice h 1⟩

/-- In `1d20r1` a one is rolled again, and the twenty was drawn then. -/
theorem naturals_of_evaluate_rerolled_one :
    let f : Formula := ⟨some (.binary none (.modifier (.reroll .equal .once))
      (.binary none (.dice .plain) (.int 1) (.int 20)) (.int 1))⟩
    let ctx : Context Script := .start (some 10) ⟨[1, 20], .constant 1⟩
    let run := f.evaluate.run ctx
    f.clear = f ∧ run.1.1.isOk = true ∧ run.1.2.isCritical = true ∧
      run.1.2.isFail = false ∧ f.Explained run.1.2 ctx 20 := by
  intro f ctx run
  have hf : f.clear = f := rfl
  have hdice : f.OperatorsAre fun op =>
      ∀ kind, op = .binary (.dice kind) → kind = .plain ∨ kind = .critical := by
    rintro e ⟨⟩
    simp [Expr.Everywhere, Expr.subtrees, Expr.int, Expr.op?]
  have hok : run.1.1.isOk = true := by decide +kernel
  obtain ⟨total, htotal⟩ : ∃ total, run.1.1 = .ok total := by
    cases hresult : run.1.1 with
    | error c =>
      rw [hresult] at hok
      cases hok
    | ok total => exact ⟨total, rfl⟩
  have hcritical : run.1.2.isCritical = true := by decide +kernel
  have hrun : run = ((.ok total, run.1.2), run.2) := by
    clear_value run
    exact Prod.ext (Prod.ext htotal rfl) rfl
  obtain ⟨htwenty, -⟩ := naturals_of_evaluate hf hdice hrun
  exact ⟨hf, hok, hcritical, by decide +kernel, htwenty hcritical⟩

/-- Neither the twenty of `1d20f20` nor the one of `1d20t15` was drawn: a five and an eighteen
were. -/
theorem unnatural_of_evaluate :
    let f : Formula := ⟨some (.binary none (.arithmetic .plus)
      (.binary none (.modifier .floor)
        (.binary none (.dice .plain) (.int 1) (.int 20)) (.int 20))
      (.binary none (.modifier .countAtLeast)
        (.binary none (.dice .plain) (.int 1) (.int 20)) (.int 15)))⟩
    let ctx : Context Script := .start (some 10) ⟨[5, 18], .constant 1⟩
    let run := f.evaluate.run ctx
    f.clear = f ∧ run.1.1.isOk = true ∧ run.1.2.isCritical = true ∧
      run.1.2.isFail = true ∧ (f.draws ctx).map Prod.snd = [5, 18] := by
  intro f ctx run
  exact ⟨rfl, by decide +kernel, by decide +kernel, by decide +kernel, by decide +kernel⟩

end Formula

end DiceNotation
