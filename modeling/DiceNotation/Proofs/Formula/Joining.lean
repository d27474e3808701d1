import DiceNotation.Proofs.Evaluation.Draws
import DiceNotation.Proofs.Operator.Applications

/-!
# Sums of formulas

Joining two formulas by addition or subtraction adds or subtracts what they come to. The operands
keep all that they remember, and without a budget the joint formula draws what one operand and
then the other would have drawn.

* `Formula.comesTo_joined`: what a joint formula comes to.
* `Formula.sums_of_formulas`: all ways to join two formulas, and what comes of them.
-/

namespace DiceNotation

/-! ## Without a budget -/

variable {ρ : Type}

/-- Whether two contexts have no budget and the same roller. They may have counted differently. -/
structure Unbounded (ctx other : Context ρ) : Prop where
  limit_eq : ctx.limit = none
  limit_eq' : other.limit = none
  roller_eq : other.roller = ctx.roller

theorem countsAlike_unbounded : CountsAlike (Unbounded (ρ := ρ)) := by
  intro n ctx other h
  have hleft : (ctx.charge n).isExhausted = false := by
    rw [Context.isExhausted, Context.charge, h.limit_eq]
    rfl
  have hright : (other.charge n).isExhausted = false := by
    rw [Context.isExhausted, Context.charge, h.limit_eq']
    rfl
  rw [RollM.run_count, RollM.run_count, hleft, hright]
  exact ⟨rfl, h.limit_eq, h.limit_eq', h.roller_eq⟩

theorem pairs_unbounded : Pairs id (Unbounded (ρ := ρ)) where
  roller_eq h := h.roller_eq
  replace h _ := ⟨h.limit_eq, h.limit_eq', rfl⟩

variable [Roller ρ] {ctx mid last : Context ρ}

theorem rollsAlike_unbounded : RollsAlike (Unbounded (ρ := ρ)) :=
  rollsAlike_of_commutes countsAlike_unbounded pairs_unbounded
    ⟨fun _ _ => rfl, fun _ _ _ => rfl⟩

/-- Without a budget, what was counted before makes no difference. -/
theorem Expr.evaluate_of_unbounded {e e' : Expr} {result : Except RollError Value}
    {other : Context ρ} (h : Unbounded ctx other)
    (he : e.evaluate.run ctx = ((result, e'), last)) :
    ∃ last', e.evaluate.run other = ((result, e'), last') ∧ Unbounded last last' := by
  obtain ⟨hfound, hlast⟩ :=
    e.alike_evaluate countsAlike_unbounded (fun _ _ _ => rollsAlike_unbounded) ctx other h
  rcases hrun : e.evaluate.run other with ⟨found, last'⟩
  rw [he, hrun] at hfound hlast
  cases hfound
  exact ⟨last', rfl, hlast⟩

namespace Formula

variable {f f' g g' : Formula} {x y : Number}

/-! ## Values of the operands -/

/-- The operand that a formula becomes has a value that collapses to the total of the formula. -/
theorem exists_run_rootOrZero (h : f.evaluate.run ctx = ((.ok x, f'), last))
    (hfaces : ∀ list, f'.memory ≠ some (.faces list)) :
    ∃ v e', f.rootOrZero.evaluate.run ctx.reset = ((.ok v, e'), last) ∧
      v.collapse = x ∧ ∀ list, v ≠ .faces list := by
  cases hroot : f.root with
  | none =>
    cases (evaluate_of_empty hroot ctx).symm.trans h
    refine ⟨.number .zero, .literal (some (.number .zero)) (.int 0), ?_, rfl, nofun⟩
    rw [rootOrZero, hroot]
    rfl
  | some e =>
    rcases hrun : e.evaluate.run ctx.reset with ⟨⟨result, e'⟩, last'⟩
    have hmemory : e'.memory = result.toOption := by
      have hcase := e.isCase_evaluate ctx.reset
      rw [hrun] at hcase
      exact hcase.memory_eq
    have heval := (evaluate_of_root hroot hrun).symm.trans h
    cases result with
    | error c => cases heval
    | ok v =>
      cases heval
      refine ⟨v, e', ?_, rfl, fun list hv => hfaces list ?_⟩
      · rw [rootOrZero, hroot]
        exact hrun
      · rw [memory, Option.bind_some, hmemory, hv]
        rfl

/-- What a formula comes to in a context: the total, the roller that it leaves, and the draws. -/
structure ComesTo (h : Formula) (ctx : Context ρ) (total : Number) (roller : ρ)
    (draws : List (Sides × UInt32)) : Prop where
  total_eq : (h.evaluate.run ctx).1.1 = .ok total
  roller_eq : (h.evaluate.run ctx).2.roller = roller
  draws_eq : h.draws ctx = draws

/-- A joint formula evaluates its operands as they would be evaluated alone. -/
theorem evaluate_joined {a : Arithmetic} {z : Number} (hz : a.calculate x y = .ok z)
    (hlimit : ctx.limit = none) (hf : f.evaluate.run ctx = ((.ok x, f'), mid))
    (hg : g.evaluate.run mid = ((.ok y, g'), last))
    (hf' : ∀ list, f'.memory ≠ some (.faces list))
    (hg' : ∀ list, g'.memory ≠ some (.faces list)) :
    ∃ h last', (joined a f g).evaluate.run ctx = ((.ok z, h), last') ∧
      last'.roller = last.roller := by
  obtain ⟨v, e, he, rfl, hv⟩ := exists_run_rootOrZero hf hf'
  obtain ⟨w, e', he', rfl, hw⟩ := exists_run_rootOrZero hg hg'
  -- the second operand goes on counting, where on its own it would begin anew
  have hstart : Unbounded ctx.reset ctx.reset := ⟨hlimit, hlimit, rfl⟩
  obtain ⟨mid', hmid', hmid⟩ := Expr.evaluate_of_unbounded hstart he
  cases he.symm.trans hmid'
  have hgoes : Unbounded mid.reset mid := ⟨hmid.limit_eq, hmid.limit_eq, rfl⟩
  obtain ⟨last', hlast', hlast⟩ := Expr.evaluate_of_unbounded hgoes he'
  have happly : ((Operator.binary (.arithmetic a)).apply (some v) (some w)).run.run last' =
      (.ok (.number z), last') := by
    rw [Operator.run_arithmetic_of_ne_faces a hv hw, hz]
    rfl
  have hrun := Expr.run_evaluate_binary he hlast' happly
  exact ⟨_, last', evaluate_of_root rfl hrun, hlast.roller_eq⟩

/-- What comes of joining is what the operands come to, and so are the draws, in their order. -/
theorem comesTo_joined {a : Arithmetic} {z : Number} (hz : a.calculate x y = .ok z)
    (hlimit : ctx.limit = none) (hf : f.evaluate.run ctx = ((.ok x, f'), mid))
    (hg : g.evaluate.run mid = ((.ok y, g'), last))
    (hf' : ∀ list, f'.memory ≠ some (.faces list))
    (hg' : ∀ list, g'.memory ≠ some (.faces list)) :
    (joined a f g).ComesTo ctx z last.roller (f.draws ctx ++ g.draws mid) := by
  obtain ⟨h, last', hrun, hroller⟩ := evaluate_joined hz hlimit hf hg hf' hg'
  refine ⟨by rw [hrun], by rw [hrun, hroller], ?_⟩
  -- the same with a record
  rcases hrecf : f.evaluate.run ctx.recording with ⟨found, rmid⟩
  have hmirror := f.mirrors_evaluate ctx.recording
  rw [Context.unrecorded_recording, hf, hrecf] at hmirror
  cases hmirror
  rcases hrecg : g.evaluate.run rmid with ⟨found', rlast⟩
  have hmirror' := g.mirrors_evaluate rmid
  rw [hg, hrecg] at hmirror'
  cases hmirror'
  have hunbounded : ctx.recording.limit = none := hlimit
  obtain ⟨h', rlast', hrun', hroller'⟩ := evaluate_joined hz hunbounded hrecf hrecg hf' hg'
  have hrecord := g.record_evaluate rmid
  rw [hrecg] at hrecord
  have hfirst : f.draws ctx = rmid.roller.record.reverse := by rw [draws, hrecf]
  have hjoint : (joined a f g).draws ctx = rlast.roller.record.reverse := by
    rw [draws, hrun', hroller']
  rw [hjoint, hfirst]
  exact hrecord

/-! ## Ways to join -/

/-- Whether one formula comes of all the ways to put two formulas under an operator: of copies, of
formulas that are used up, and in place of the first one, with the second one given as a value or
losing its nodes. The operands keep what they remember. -/
structure JoinsTo (a : Arithmetic) (f g h : Formula) : Prop where
  concat : f.concat g (.binary (.arithmetic a)) = .ok h
  joinTaken : (joinTaken a).run (f, g) = (h, (empty, empty))
  assign : (assign a g).run f = ((), h)
  concatFrom : (concatFrom (.binary (.arithmetic a))).run.run (f, g) = (.ok (), (h, empty))
  nodes : h.nodes =
    (.op (.binary (.arithmetic a)), none) :: (f.rootOrZero.nodes ++ g.rootOrZero.nodes)

theorem joinsTo_add (f g : Formula) : JoinsTo .plus f g (f + g) := ⟨rfl, rfl, rfl, rfl, rfl⟩

theorem joinsTo_sub (f g : Formula) : JoinsTo .minus f g (f - g) := ⟨rfl, rfl, rfl, rfl, rfl⟩

/-- Whether joining under an operator is refused, and both formulas are left as they are. -/
structure Refuses (op : Operator) (f g : Formula) : Prop where
  kind : (RollError.cannotJoin op).kind = .inputType
  concat : f.concat g op = .error (.cannotJoin op)
  concatFrom : (concatFrom op).run.run (f, g) = (.error (.cannotJoin op), (f, g))

theorem joiner_of_ne {op : Operator} (hplus : op ≠ .plus) (hminus : op ≠ .minus) :
    joiner op = .error (.cannotJoin op) := by
  unfold joiner
  split
  · exact absurd rfl hplus
  · exact absurd rfl hminus
  · rfl

theorem refuses_of_ne {op : Operator} (hplus : op ≠ .plus) (hminus : op ≠ .minus)
    (f g : Formula) : Refuses op f g := by
  have hjoiner := joiner_of_ne hplus hminus
  refine ⟨rfl, ?_, ?_⟩
  · rw [Formula.concat, hjoiner]
    rfl
  · rw [run_concatFrom, hjoiner]

/-- Formulas are joined by addition and subtraction alone, and all ways to do it make the same
formula. Where two of them in a row come to numbers without a budget, their sum and their difference
come to the sum and to the difference of these, with the same draws in the same order, and with
none if both remember their values. -/
theorem sums_of_formulas (f g : Formula) :
    JoinsTo .plus f g (f + g) ∧ JoinsTo .minus f g (f - g) ∧
      (∀ op, op ≠ .plus → op ≠ .minus → Refuses op f g) ∧
      ∀ {ρ : Type} [Roller ρ] {ctx mid last : Context ρ} {f' g' : Formula} {x y : Number},
        ctx.limit = none → f.evaluate.run ctx = ((.ok x, f'), mid) →
        g.evaluate.run mid = ((.ok y, g'), last) → (∀ list, f'.memory ≠ some (.faces list)) →
        (∀ list, g'.memory ≠ some (.faces list)) →
        (f + g).ComesTo ctx (x + y) last.roller (f.draws ctx ++ g.draws mid) ∧
          (f - g).ComesTo ctx (x - y) last.roller (f.draws ctx ++ g.draws mid) ∧
          ((∀ e, f.root = some e → e.memory.isSome) → (∀ e, g.root = some e → e.memory.isSome) →
            f.draws ctx ++ g.draws mid = []) := by
  refine ⟨joinsTo_add f g, joinsTo_sub f g, fun op hplus hminus => refuses_of_ne hplus hminus f g,
    fun {ρ} _ {ctx mid last f' g' x y} hlimit hf hg hf' hg' => ⟨?_, ?_, fun hfm hgm => ?_⟩⟩
  · exact comesTo_joined (a := .plus) rfl hlimit hf hg hf' hg'
  · exact comesTo_joined (a := .minus) rfl hlimit hf hg hf' hg'
  · rw [draws_of_remembered hfm, draws_of_remembered hgm, List.append_nil]

/-- `1d6` that rolls a five and a two that is known already: one die is drawn for their sum, and
one for their difference. -/
theorem sums_of_formulas_die_and_number :
    let six : Sides := ⟨6, by decide, by decide⟩
    let five := Roll.of [.int 5] (.sides six)
    let known (n : Int64) : Expr := .literal (some (.number (.int n))) (.int n)
    let f : Formula := ⟨some (.binary none (.dice .plain) (.int 1) (.int 6))⟩
    let f' : Formula := ⟨some (.binary (some (.roll five)) (.dice .plain) (known 1) (known 6))⟩
    let g : Formula := ⟨some (known 2)⟩
    let ctx := Context.start none (⟨[5], .constant 1⟩ : Script)
    let mid : Context Script := ⟨none, 1, ⟨[], .constant 1⟩⟩
    ctx.limit = none ∧ f.evaluate.run ctx = ((.ok five.sum, f'), mid) ∧
      g.evaluate.run mid = ((.ok (.int 2), g), mid.reset) ∧
      (∀ list, f'.memory ≠ some (.faces list)) ∧ (∀ list, g.memory ≠ some (.faces list)) ∧
      (f + g).ComesTo ctx (five.sum + .int 2) ⟨[], .constant 1⟩ [(six, 5)] ∧
      (f - g).ComesTo ctx (five.sum - .int 2) ⟨[], .constant 1⟩ [(six, 5)] ∧
      Refuses (.binary (.arithmetic .times)) f g := by
  intro six five known f f' g ctx mid
  have hf : f.evaluate.run ctx = ((.ok five.sum, f'), mid) := rfl
  have hg : g.evaluate.run mid = ((.ok (.int 2), g), mid.reset) := rfl
  have hf' : ∀ list, f'.memory ≠ some (.faces list) := nofun
  have hg' : ∀ list, g.memory ≠ some (.faces list) := nofun
  have hlimit : ctx.limit = none := rfl
  obtain ⟨-, -, hrefuses, hsums⟩ := sums_of_formulas f g
  obtain ⟨hadd, hsub, -⟩ := hsums hlimit hf hg hf' hg'
  exact ⟨hlimit, hf, hg, hf', hg', hadd, hsub, hrefuses _ nofun nofun⟩

end Formula

end DiceNotation
