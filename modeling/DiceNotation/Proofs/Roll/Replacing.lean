import DiceNotation.Proofs.Roll.Ceiling
import DiceNotation.Proofs.Rolling.Fair
import DiceNotation.Proofs.Rolling.Redraws
import Mathlib.Data.List.Forall2

/-!
# What a successful reroll does

Values that are accepted stay. For any other value dice are drawn, one or as many as it takes, and
the last of them takes its place. The value and all dice before the last one are discarded.

* `RedrawsEach.drawnFor`, `RedrawsEach.shows`: which dice are drawn, and that they are faces.
* `exists_draws_of_reroll`: how the dice of a successful reroll make up its values and discards.
-/

namespace DiceNotation

variable {ρ : Type} [Roller ρ]

/-! ## Faces -/

/-- Whether a die has a face with the value. -/
inductive Die.Shows : Die → Number → Prop where
  | side {s : Sides} {k : Nat} : 1 ≤ k → k ≤ s.count → Shows (.sides s) (.int (Int64.ofNat k))
  | face {f : Faces} {x : Number} : x ∈ f.toList → Shows (.faces f) x

theorem Die.shows_shown {die : Die} {s : Sides} {side : UInt32} (hsides : die.rolledSides = .ok s)
    (hpos : 1 ≤ side.toNat) (hle : side.toNat ≤ s.count) : die.Shows (die.shown side) := by
  cases die with
  | sides s =>
    cases hsides
    exact .side hpos hle
  | faces f => exact .face (f.mem_get side.toNat)

/-- Fair dice show nothing but their faces. -/
theorem Requested.shows (hfair : Roller.IsFair ρ) {call : Roller.Call} {die : Die} {values : List Number}
    {ctx last : Context ρ} (h : Requested call die ctx (.ok values) last) :
    ∀ x ∈ values, die.Shows x := by
  cases h with
  | @rolled s draws roller hcount hsides hdraws =>
    intro x hx
    obtain ⟨side, hside, rfl⟩ := List.mem_map.mp hx
    have hsides' := hfair.draw call s ctx.roller side
    rw [hdraws] at hsides'
    obtain ⟨hpos, hle⟩ := hsides' hside
    exact Die.shows_shown hsides hpos hle

namespace Roll

/-! ## The draws for one value -/

theorem latest_concat (x y : Number) (failed : List Number) : latest x (failed ++ [y]) = y := by
  simp [latest]

/-- Whether these values are drawn in place of a value: none for one that is accepted, a single one
if each is rerolled once, and otherwise values up to the first one that is accepted. -/
inductive DrawnFor (rejects : Number → Bool) : Repetition → Number → List Number → Prop where
  | nothing {repetition : Repetition} {x : Number} : rejects x = false →
      DrawnFor rejects repetition x []
  | once {x y : Number} : rejects x = true → DrawnFor rejects .once x [y]
  | always {x y : Number} {failed : List Number} : rejects x = true →
      (∀ z ∈ failed, rejects z = true) → rejects y = false →
      DrawnFor rejects .always x (failed ++ [y])

variable {die : Die} {rejects : Number → Bool} {repetition : Repetition}
  {outcome : Except RollError Unit} {ctx last : Context ρ}

theorem Redraws.drawnFor {draws : List Number}
    (h : Redraws die rejects repetition ctx draws outcome last) (houtcome : outcome = .ok ())
    {x : Number} (hx : rejects x = true) : DrawnFor rejects repetition x draws := by
  induction h generalizing x with
  | fails hrequest => cases houtcome
  | lands hrequest haccept =>
    cases repetition with
    | once => exact .once hx
    | always => exact .always hx (List.forall_mem_nil _) (haccept rfl)
  | again halways hrequest hreject hrest ih =>
    subst halways
    cases ih houtcome hreject with
    | nothing haccept =>
      rw [hreject] at haccept
      cases haccept
    | always hy hfailed haccept =>
      exact .always hx (List.forall_mem_cons.mpr ⟨hreject, hfailed⟩) haccept

theorem DrawnFor.accepted {x : Number} {draws : List Number}
    (h : DrawnFor rejects .always x draws) : rejects (latest x draws) = false := by
  cases h with
  | nothing hx => exact hx
  | always hx hfailed hy =>
    rw [latest_concat]
    exact hy

theorem Redraws.shows (hfair : Roller.IsFair ρ) {draws : List Number}
    (h : Redraws die rejects repetition ctx draws outcome last) : ∀ x ∈ draws, die.Shows x := by
  induction h with
  | fails hrequest => exact List.forall_mem_nil _
  | lands hrequest haccept => exact hrequest.shows hfair
  | again halways hrequest hreject hrest ih =>
    exact List.forall_mem_cons.mpr ⟨hrequest.shows hfair _ List.mem_cons_self, ih⟩

/-! ## The draws for all values -/

variable {xs : List Number} {draws : List (List Number)}

theorem RedrawsEach.drawnFor
    (h : RedrawsEach die rejects repetition xs ctx draws outcome last)
    (houtcome : outcome = .ok ()) : List.Forall₂ (DrawnFor rejects repetition) xs draws := by
  induction h with
  | done => exact .nil
  | spares hspare hrest ih => exact .cons (.nothing hspare) (ih houtcome)
  | stops hreject hfirst => cases houtcome
  | redraws hreject hfirst hrest ih => exact .cons (hfirst.drawnFor rfl hreject) (ih houtcome)

theorem RedrawsEach.shows (hfair : Roller.IsFair ρ)
    (h : RedrawsEach die rejects repetition xs ctx draws outcome last) :
    ∀ x ∈ draws.flatten, die.Shows x := by
  induction h with
  | done => exact List.forall_mem_nil _
  | spares hspare hrest ih => exact ih
  | stops hreject hfirst =>
    rw [flatten_of_nothing]
    exact hfirst.shows hfair
  | redraws hreject hfirst hrest ih =>
    rw [List.flatten_cons, List.forall_mem_append]
    exact ⟨hfirst.shows hfair, ih⟩

theorem accepted_of_drawnFor (h : List.Forall₂ (DrawnFor rejects .always) xs draws) :
    ∀ y ∈ List.zipWith latest xs draws, rejects y = false := by
  induction h with
  | nil => exact List.forall_mem_nil _
  | cons hfirst hrest ih => exact List.forall_mem_cons.mpr ⟨hfirst.accepted, ih⟩

/-- Every draw makes one value give way. -/
theorem length_flatten_superseded (h : xs.length = draws.length) :
    (List.zipWith superseded xs draws).flatten.length = draws.flatten.length := by
  induction draws generalizing xs with
  | nil => simp
  | cons ys draws ih =>
    cases xs with
    | nil => simp at h
    | cons x xs =>
      simp only [List.length_cons, Nat.add_right_cancel_iff] at h
      simp only [List.zipWith_cons_cons, List.flatten_cons, List.length_append, length_superseded,
        ih h]

/-- The dice that a successful reroll draws belong to the values of the roll, from the first to the
last. Each value is kept if nothing is drawn for it. Otherwise the last of its dice takes its place,
and the value and the dice before are discarded in this order. -/
theorem exists_draws_of_reroll (hfair : Roller.IsFair ρ) {r after : Roll} {relation : Relation}
    {target : Number}
    (h : (r.reroll relation target repetition).run ctx = ((.ok (), after), last)) :
    ∃ draws : List (List Number),
      List.Forall₂ (DrawnFor (relation.holds · target) repetition) r.rolls draws ∧
      draws.flatten = drawnBy (r.reroll relation target repetition) r.die ctx ∧
      after.rolls = Number.sort (List.zipWith latest r.rolls draws) ∧
      after.discards = r.discards ++ (List.zipWith superseded r.rolls draws).flatten ∧
      (repetition = .always → ∀ x ∈ after.rolls, relation.holds x target = false) ∧
      (∀ x ∈ draws.flatten, r.die.Shows x) ∧
      after.discards.length = r.discards.length + draws.flatten.length ∧
      (ctx.rolled + draws.flatten.length ≤ maxCount →
        last.rolled = ctx.rolled + draws.flatten.length) := by
  have hcourse := r.exists_course relation target repetition ctx
  rw [h] at hcourse
  obtain ⟨hrefused, -⟩ | ⟨draws, hdraws, hflatten, hrolls, -, hdiscards⟩ := hcourse nofun
  · cases hrefused
  · have hdrawn := hdraws.drawnFor rfl
    have hsorted : after.rolls = Number.sort (List.zipWith latest r.rolls draws) := hrolls rfl
    refine ⟨draws, hdrawn, hflatten, hsorted, hdiscards, ?_, hdraws.shows hfair, ?_,
      hdraws.rolled_eq rfl⟩
    · rintro rfl x hx
      rw [hsorted] at hx
      exact accepted_of_drawnFor hdrawn x (Number.mem_sort.mp hx)
    · change after.discards = _ at hdiscards
      rw [hdiscards, List.length_append, length_flatten_superseded hdrawn.length_eq]

/-- A one is rolled again as a one, a two and a five, and a two as a one and a six. -/
theorem exists_draws_of_reroll_below_three :
    let r : Roll := ⟨[.int 1, .int 2, .int 4], [], .sides ⟨6, by decide, by decide⟩⟩
    let ctx := Context.start (some 100) (⟨[1, 2, 5, 1], .constant 6⟩ : Script)
    let run := (r.reroll .lower (.int 3) .always).run ctx
    Roller.IsFair Script ∧ run = ((.ok (), run.1.2), run.2) ∧
      run.1.2.discards = [.int 1, .int 1, .int 2, .int 2, .int 1] ∧
      ∃ draws : List (List Number),
        List.Forall₂ (DrawnFor (Relation.lower.holds · (.int 3)) .always) r.rolls draws ∧
        draws.flatten = [.int 1, .int 2, .int 5, .int 1, .int 6] ∧
        run.1.2.rolls = Number.sort (List.zipWith latest r.rolls draws) ∧
        (∀ x ∈ run.1.2.rolls, Relation.lower.holds x (.int 3) = false) ∧
        (∀ x ∈ draws.flatten, r.die.Shows x) ∧ run.2.rolled = 5 := by
  intro r ctx run
  have hok : run.1.1 = .ok () := rfl
  have hrun : run = ((.ok (), run.1.2), run.2) := by
    clear_value run
    exact Prod.ext (Prod.ext hok rfl) rfl
  have hdiscards : run.1.2.discards = [.int 1, .int 1, .int 2, .int 2, .int 1] := rfl
  have hdrawn : drawnBy (r.reroll .lower (.int 3) .always) r.die ctx =
      [.int 1, .int 2, .int 5, .int 1, .int 6] := rfl
  have hfits : ctx.rolled + 5 ≤ maxCount := by decide
  obtain ⟨draws, hdraws, hflatten, hrolls, -, haccepted, hshows, -, hcount⟩ :=
    exists_draws_of_reroll Roller.isFair_script hrun
  rw [hflatten, hdrawn] at hcount
  have hrolled : run.2.rolled = ctx.rolled + 5 := hcount hfits
  exact ⟨Roller.isFair_script, hrun, hdiscards, draws, hdraws, hflatten.trans hdrawn, hrolls,
    haccepted rfl, hshows, hrolled⟩

end Roll

end DiceNotation
