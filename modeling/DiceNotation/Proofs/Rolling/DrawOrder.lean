import DiceNotation.Proofs.Evaluation.Alike
import DiceNotation.Proofs.Roll.Ascending

/-!
# The order of the draws

Integers have one ascending arrangement. So a fresh roll of a die that shows nothing but integers
is known from the values that were drawn, in whatever order they came, and what is reworked later
by position or by value can no longer tell how they came.

* `Number.sort_eq_of_perm`: values in another order are sorted into the same list.
* `Modifier.applyAll`: a chain of modifiers.
* `RollM.rollDice_eq_of_perm`: two rollers that draw the same values in some order make the same
  roll, and chains without rerolls make the same of it.
-/

namespace DiceNotation

/-! ## Sorting -/

namespace Number

theorem IsInteger.eq_of_le {x y : Number} (hx : x.IsInteger) (hy : y.IsInteger)
    (hxy : x.le y = true) (hyx : y.le x = true) : x = y := by
  obtain ⟨m, rfl⟩ := hx
  obtain ⟨n, rfl⟩ := hy
  exact congrArg int (Int64.toInt_inj.mp (Int.le_antisymm (le_int.mp hxy) (le_int.mp hyx)))

/-- Integers are sorted into what has them in ascending order. -/
theorem sort_eq_of_pairwise {xs ys : List Number} (h : ∀ x ∈ xs, x.IsInteger) (hperm : xs.Perm ys)
    (hys : ys.Pairwise fun x y => x.le y = true) : sort xs = ys := by
  refine List.Perm.eq_of_pairwise ?_ (pairwise_le_sort h) hys ((perm_sort xs).trans hperm)
  intro x y hx hy hxy hyx
  exact (h x (mem_sort.mp hx)).eq_of_le (h y (hperm.mem_iff.mpr hy)) hxy hyx

/-- Integers are sorted into the same list in whatever order they come. -/
theorem sort_eq_of_perm {xs ys : List Number} (h : ∀ x ∈ xs, x.IsInteger) (hperm : xs.Perm ys) :
    sort xs = sort ys := by
  have hys : ∀ y ∈ ys, y.IsInteger := fun y hy => h y (hperm.mem_iff.mpr hy)
  exact sort_eq_of_pairwise h (hperm.trans (perm_sort ys).symm) (pairwise_le_sort hys)

end Number

theorem Roll.of_eq_of_perm {xs ys : List Number} (h : ∀ x ∈ xs, x.IsInteger) (hperm : xs.Perm ys)
    (die : Die) : of xs die = of ys die := by
  rw [of, of, Number.sort_eq_of_perm h hperm]

/-! ## Drawing -/

variable {ρ σ : Type} [Roller ρ] [Roller σ] {n : Nat} {die : Die}

/-- The values that a roller shows on the next dice, in the order in which it draws them, unless
the die cannot be rolled. -/
def Roller.results (n : Nat) (die : Die) (roller : ρ) : Except RollError (List Number) :=
  die.rolledSides.map fun s => ((rollMany n s).run roller).1.map die.shown

theorem Roller.isInteger_of_results (hdie : die.isInteger = true) {roller : ρ} {xs : List Number}
    (h : results n die roller = .ok xs) : ∀ x ∈ xs, x.IsInteger := by
  unfold results at h
  cases hsides : die.rolledSides with
  | error c =>
    rw [hsides] at h
    cases h
  | ok s =>
    rw [hsides] at h
    cases h
    intro x hx
    obtain ⟨side, -, rfl⟩ := List.mem_map.mp hx
    exact Die.isInteger_shown hdie side

/-- Within the budget, the dice that are rolled are those that the roller shows. -/
theorem RollM.rollDice_of_results {ctx : Context ρ} (hctx : (ctx.charge n).isExhausted = false)
    {xs : List Number} (h : Roller.results n die ctx.roller = .ok xs) :
    ((rollDice n die).run.run ctx).1 = .ok (Roll.of xs die) := by
  unfold Roller.results at h
  obtain ⟨outcome, hrequested, hroll⟩ := requested_rollDice n die ctx
  generalize ((rollDice n die).run.run ctx).2 = last at hrequested
  rw [hroll]
  cases hrequested with
  | exhausted hcount => cases hctx.symm.trans hcount
  | unrollable _ hsides =>
    rw [hsides] at h
    cases h
  | rolled _ hsides hdraws =>
    rw [hsides] at h
    have hxs : ((Roller.rollMany n _).run ctx.roller).1.map die.shown = xs := Except.ok.inj h
    rw [← Roller.Call.draw_many, hdraws] at hxs
    rw [hxs]
    rfl

/-! ## Modifiers -/

/-- Applies modifiers one after the other, each with its evaluated amount. -/
def Modifier.applyAll : List (Modifier × Value) → Roll → RollM ρ Roll
  | [], r => return r
  | (m, amount) :: ms, r => m.apply (some (.roll r)) (some amount) >>= applyAll ms

/-- Without rerolls nothing but the roll matters. -/
theorem Modifier.applyAll_eq (ms : List (Modifier × Value))
    (h : ∀ m ∈ ms, (Operator.binary (.modifier m.1)).asksRoller = false) (r : Roll)
    (ctx : Context ρ) (other : Context σ) :
    ((applyAll ms r).run.run ctx).1 = ((applyAll ms r).run.run other).1 := by
  have halike : Alike (fun (_ : Context ρ) (_ : Context σ) => True)
      (applyAll ms r : RollM ρ Roll).run (applyAll ms r : RollM σ Roll).run := by
    induction ms generalizing r with
    | nil => exact RollM.alike_pure r
    | cons m ms ih =>
      obtain ⟨hm, hms⟩ := List.forall_mem_cons.mp h
      refine RollM.alike_bind (m.1.alike_apply ?_ _ _) (ih hms)
      intro hasks
      cases hm.symm.trans hasks
  exact (halike ctx other trivial).1

/-! ## Drawing in another order -/

/-- Two rollers whose next values are the same but for their order make the same roll of a die with
integer faces, whatever was counted before within the two budgets, and modifiers that reroll
nothing make the same of it, discards and their order included. -/
theorem RollM.rollDice_eq_of_perm (hdie : die.isInteger = true) {ctx : Context ρ}
    {other : Context σ} (hctx : (ctx.charge n).isExhausted = false)
    (hother : (other.charge n).isExhausted = false) {xs ys : List Number}
    (hxs : Roller.results n die ctx.roller = .ok xs)
    (hys : Roller.results n die other.roller = .ok ys) (hperm : xs.Perm ys) :
    ∃ r : Roll, r.rolls.Perm xs ∧ r.discards = [] ∧ r.die = die ∧
      ((rollDice n die).run.run ctx).1 = .ok r ∧ ((rollDice n die).run.run other).1 = .ok r ∧
      ∀ ms : List (Modifier × Value),
        (∀ m ∈ ms, (Operator.binary (.modifier m.1)).asksRoller = false) →
          ((rollDice n die >>= Modifier.applyAll ms).run.run ctx).1 =
            ((rollDice n die >>= Modifier.applyAll ms).run.run other).1 := by
  have hleft := rollDice_of_results hctx hxs
  have hright := rollDice_of_results hother hys
  rw [← Roll.of_eq_of_perm (Roller.isInteger_of_results hdie hxs) hperm] at hright
  refine ⟨Roll.of xs die, Roll.perm_rolls_of xs die, rfl, rfl, hleft, hright, fun ms hms => ?_⟩
  rw [run_bind, run_bind]
  generalize (rollDice n die).run.run ctx = first at hleft
  generalize (rollDice n die).run.run other = second at hright
  obtain ⟨outcome, mid⟩ := first
  obtain ⟨outcome', mid'⟩ := second
  cases hleft
  cases hright
  exact Modifier.applyAll_eq ms hms _ mid mid'

/-- Of 4, 1, 3, 2 and of 2, 3, 1, 4 the highest two are kept, and then raised to 4. -/
theorem RollM.rollDice_eq_of_perm_keepHigh :
    let die : Die := .sides ⟨6, by decide, by decide⟩
    let ctx : Context Script := .start (some 4) ⟨[4, 1, 3, 2], .constant 1⟩
    let other : Context Script := .start none ⟨[2, 3, 1, 4], .constant 1⟩
    let kept (r : Roll) : RollM Script Roll :=
      Modifier.applyAll [(.keepHigh, .number (.int 2)), (.floor, .number (.int 4))] r
    ((rollDice 4 die >>= kept).run.run ctx).1 =
        .ok ⟨[.int 4, .int 4], [.int 1, .int 2, .int 3], die⟩ ∧
      ((rollDice 4 die >>= kept).run.run ctx).1 = ((rollDice 4 die >>= kept).run.run other).1 := by
  intro die ctx other kept
  have hctx : Roller.results 4 die ctx.roller = .ok ([4, 1, 3, 2].map .int) := rfl
  have hother : Roller.results 4 die other.roller = .ok ([2, 3, 1, 4].map .int) := rfl
  have hdraws : ([4, 1, 3, 2] : List Int64).Perm [2, 3, 1, 4] := by decide
  obtain ⟨-, -, -, -, -, -, hchain⟩ :=
    rollDice_eq_of_perm rfl rfl rfl hctx hother (hdraws.map Number.int)
  have hthrown : Number.sort ([4, 1, 3, 2].map .int) = [1, 2, 3, 4].map .int :=
    Number.sort_eq_of_pairwise (by simp [Number.IsInteger])
      ((by decide : ([4, 1, 3, 2] : List Int64).Perm [1, 2, 3, 4]).map Number.int) (by decide)
  have hraised : Number.sort [.int 4, .int 4] = [.int 4, .int 4] := Number.sort_replicate 2 (.int 4)
  have hroll : (rollDice 4 die).run.run ctx =
      (.ok ⟨Number.sort ([4, 1, 3, 2].map .int), [], die⟩, ((rollDice 4 die).run.run ctx).2) := rfl
  refine ⟨?_, hchain _ (by decide)⟩
  rw [run_bind, hroll, hthrown, ← hraised]
  rfl

end DiceNotation
