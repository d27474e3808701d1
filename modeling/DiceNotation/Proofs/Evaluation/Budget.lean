import DiceNotation.Proofs.Evaluation.Accounts

/-!
# Budgets over whole runs

* `Request.drawn_le`, `Request.fails_beyond_budget`: between two resets, no more dice are rolled
  than a budget allows, and nothing is rolled any more once it is exceeded.
* `Formula.rolled_eq`: the count after a successful evaluation.
* `keeps_budget`: both together.
-/

namespace DiceNotation

variable {ρ : Type} [Roller ρ] {m : Nat}

namespace Request

/-- However dice are asked for, no more of them are rolled than are counted or allowed. -/
theorem drawn_le (hm : m < maxCount) (roller : ρ) (before : List Request) :
    let ctx := (runAll before (Context.start (some m) (Recorded.start roller))).2
    ctx.roller.drawn ≤ m ∧ ctx.roller.drawn ≤ ctx.rolled := by
  intro ctx
  have hwithin := (within_start m roller).leads hm (leads_runAll before _)
  exact ⟨hwithin.drawn_le, hwithin.drawn_le_rolled⟩

/-- Once the budget is exceeded, nothing is rolled, and whatever needs dice fails. -/
theorem fails_beyond_budget {before : List Request} {ctx : Context ρ}
    (h : .error .tooManyRolls ∈ (runAll before ctx).1) (hlimit : ctx.limit = some m)
    (hm : m < maxCount) (next : Request) :
    (next.run (runAll before ctx).2).2.roller = (runAll before ctx).2.roller ∧
      (next.NeedsDice → ∃ c, (next.run (runAll before ctx).2).1 = .error c) := by
  have hover := overdrawn_runAll h hlimit hm
  exact ⟨(hover.leads hm (next.leads_run _)).2, exists_error_of_overdrawn hover hm⟩

end Request

namespace Formula

/-- The throws that were made between two states of a formula. -/
def thrown (f f' : Formula) : List (DiceKind × Roll) :=
  match f.root, f'.root with
  | some e, some e' => e.thrown e'
  | _, _ => []

/-- No roll that a formula remembers has more values than a budget has dice. -/
def RollsWithin (m : Nat) (f : Formula) : Prop :=
  ∀ e, f.root = some e → e.Everywhere (Expr.RollWithin m)

variable {f f' : Formula} {ctx last : Context (Recorded ρ)}

theorem covers_evaluate {x : Number} (h : f.evaluate.run ctx = ((.ok x, f'), last))
    (hlimit : ctx.limit = some m) (hm : m < maxCount) :
    Covers m (f.thrown f') ctx.reset last := by
  rcases f.evaluate_cases ctx with ⟨hroot, hrun⟩ | ⟨e, result, e', last', hroot, he, hrun⟩
  · rw [hrun] at h
    cases h
    rw [thrown, hroot]
    exact (accounts_refl ctx.reset).covers_nil m
  · rw [hrun] at h
    cases result with
    | error c => cases h
    | ok v =>
      cases h
      rw [thrown, hroot]
      exact he.covers rfl hlimit hm

theorem rollsWithin_evaluate (h : f.RollsWithin m) (hlimit : ctx.limit = some m)
    (hm : m < maxCount) : (f.evaluate.run ctx).1.2.RollsWithin m := by
  rcases f.evaluate_cases ctx with ⟨hroot, hrun⟩ | ⟨e, result, e', last', hroot, he, hrun⟩
  · rw [hrun]
    exact h
  · rw [hrun]
    intro x hx
    cases hx
    exact he.rollsWithin hlimit hm (h e hroot)

/-- After a successful evaluation the count is the number of dice that were rolled and of those
that only were counted. -/
theorem rolled_eq {x : Number} (h : f.evaluate.run ctx = ((.ok x, f'), last))
    (hlimit : ctx.limit = some m) (hm : m < maxCount) :
    last.rolled + ctx.roller.drawn = last.roller.drawn + countedOnly (f.thrown f') := by
  have haccounts : last.rolled + ctx.roller.drawn =
      0 + last.roller.drawn + countedOnly (f.thrown f') := (covers_evaluate h hlimit hm).1
  omega

end Formula

/-- The budget over whole runs: throws, operators and rerolls in any order between two resets,
and evaluations. -/
theorem keeps_budget (hm : m < maxCount) (roller : ρ) :
    (∀ (before : List Request) (next : Request),
      let outcomes := (Request.runAll before (Context.start (some m) (Recorded.start roller))).1
      let ctx := (Request.runAll before (Context.start (some m) (Recorded.start roller))).2
      ctx.roller.drawn ≤ m ∧ ctx.roller.drawn ≤ ctx.rolled ∧
      (∀ c, (next.run ctx).1 = .error c → next.isThrow = true →
        (next.run ctx).2.roller = ctx.roller) ∧
      (.error .tooManyRolls ∈ outcomes → (next.run ctx).2.roller = ctx.roller ∧
        (next.NeedsDice → ∃ c, (next.run ctx).1 = .error c))) ∧
    ∀ (f f' : Formula) (x : Number) (ctx last : Context (Recorded ρ)), ctx.limit = some m →
      f.evaluate.run ctx = ((.ok x, f'), last) →
      last.rolled + ctx.roller.drawn = last.roller.drawn + countedOnly (f.thrown f') ∧
      (∀ t ∈ f.thrown f', t.2.length ≤ m) ∧ (f.RollsWithin m → f'.RollsWithin m) := by
  constructor
  · intro before next outcomes ctx
    obtain ⟨hdrawn, hrolled⟩ := Request.drawn_le hm roller before
    refine ⟨hdrawn, hrolled, fun c hc hthrow => Request.roller_run hc hthrow, fun hover => ?_⟩
    exact Request.fails_beyond_budget hover rfl hm next
  · intro f f' x ctx last hlimit h
    refine ⟨Formula.rolled_eq h hlimit hm, (Formula.covers_evaluate h hlimit hm).2, ?_⟩
    intro hwithin
    have hafter := Formula.rollsWithin_evaluate hwithin hlimit hm
    rwa [h] at hafter

/-- With a budget of two, a failed request for three dice leaves nothing even for none, and
`2dm6` counts two dice without rolling any. -/
theorem keeps_budget_two :
    2 < maxCount ∧
    let d6 : Die := .sides ⟨6, by decide, by decide⟩
    let start := Context.start (some 2) (Recorded.start (⟨[3, 5], .constant 1⟩ : Script))
    let run := Request.runAll [.single d6, .dice 3 d6, .single d6] start
    let f : Formula := ⟨some (.binary none (.dice .maximum) (.int 2) (.int 6))⟩
    run.2.roller.drawn ≤ 2 ∧ .error .tooManyRolls ∈ run.1 ∧
      (∃ c, ((Request.dice 0 d6).run run.2).1 = .error c) ∧
      ∃ x f' last, f.evaluate.run start = ((.ok x, f'), last) ∧
        last.rolled + start.roller.drawn = last.roller.drawn + countedOnly (f.thrown f') := by
  have hm : 2 < maxCount := by decide
  refine ⟨hm, ?_⟩
  intro d6 start run f
  obtain ⟨hruns, hevaluations⟩ := keeps_budget hm (⟨[3, 5], .constant 1⟩ : Script)
  obtain ⟨hdrawn, -, -, hover⟩ := hruns [.single d6, .dice 3 d6, .single d6] (.dice 0 d6)
  have hfailed : (.error .tooManyRolls : Except RollError Unit) ∈ run.1 :=
    List.mem_cons_of_mem _ List.mem_cons_self
  refine ⟨hdrawn, hfailed, (hover hfailed).2 (.throws rfl), _, _, _, rfl, ?_⟩
  exact (hevaluations f _ _ start _ rfl rfl).1

end DiceNotation
