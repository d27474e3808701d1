import DiceNotation.Proofs.Rolling.Recording
import DiceNotation.Proofs.Rolling.Rerolls
import Mathlib.Algebra.Order.Group.Multiset
import Mathlib.Tactic.Abel

/-!
# No die disappears

Reworking a roll moves values to the discards and puts new values in, but never loses one.

* `Rerolls.swaps`: what a reroll draws takes the places of what it rejects, also if it fails.
* `Rework.exists_added`: what one change adds to a roll and its discards.
* `drawn_le_values`: every die that was drawn for a roll is still there.
-/

namespace DiceNotation

namespace Roll

/-- All values of a roll, those that count and those that were discarded. -/
def values (r : Roll) : Multiset Number := r.rolls + r.discards

theorem values_sorted (r : Roll) : r.sorted.values = r.values := by
  have hsort : (r.sorted.rolls : Multiset Number) = r.rolls :=
    Multiset.coe_eq_coe.mpr (Number.perm_sort r.rolls)
  rw [values, hsort]
  rfl

/-- New values in a roll and new discards make up for the values that were taken out. -/
theorem values_of_moved {r : Roll} {xs ys : List Number} {added : Multiset Number}
    (h : (xs : Multiset Number) + ys = r.rolls + added) :
    values { r with rolls := xs, discards := r.discards ++ ys } = r.values + added := by
  calc (xs : Multiset Number) + ↑(r.discards ++ ys)
      = (xs + ys) + (r.discards : Multiset Number) := by rw [← Multiset.coe_add]; abel
    _ = r.values + added := by rw [h, values]; abel

/-! ## Rerolling -/

section Reroll

variable {ρ : Type} {die : Die} {ctx mid last : Context (Recorded ρ)}
  {before kept before' kept' rejected rejected' : Multiset Number}

/-- Between two contexts, the values there were before and those drawn with a die have become
those that are kept and those that are rejected. -/
def Swaps (die : Die) (ctx last : Context (Recorded ρ)) (before kept rejected : Multiset Number) :
    Prop :=
  ∃ new, last.roller.shownOn die = ctx.roller.shownOn die ++ new ∧
    kept + rejected = before + (new : Multiset Number)

theorem swaps_refl (die : Die) (ctx : Context (Recorded ρ)) (before : Multiset Number) :
    Swaps die ctx ctx before before 0 :=
  ⟨[], (List.append_nil _).symm, rfl⟩

theorem Swaps.trans (h : Swaps die ctx mid before kept rejected)
    (h' : Swaps die mid last kept kept' rejected') :
    Swaps die ctx last before kept' (rejected + rejected') := by
  obtain ⟨new, hrecord, hvalues⟩ := h
  obtain ⟨new', hrecord', hvalues'⟩ := h'
  refine ⟨new ++ new', by rw [hrecord', hrecord, List.append_assoc], ?_⟩
  calc kept' + (rejected + rejected')
      = (kept' + rejected') + rejected := by abel
    _ = (kept + rejected) + (new' : Multiset Number) := by rw [hvalues']; abel
    _ = before + ↑(new ++ new') := by rw [hvalues, ← Multiset.coe_add, add_assoc]

theorem Swaps.add (h : Swaps die ctx mid before kept rejected)
    (h' : Swaps die mid last before' kept' rejected') :
    Swaps die ctx last (before + before') (kept + kept') (rejected + rejected') := by
  obtain ⟨new, hrecord, hvalues⟩ := h
  obtain ⟨new', hrecord', hvalues'⟩ := h'
  refine ⟨new ++ new', by rw [hrecord', hrecord, List.append_assoc], ?_⟩
  calc (kept + kept') + (rejected + rejected')
      = (kept + rejected) + (kept' + rejected') := by abel
    _ = (before + ↑new) + (before' + ↑new') := by rw [hvalues, hvalues']
    _ = (before + before') + ↑(new ++ new') := by rw [← Multiset.coe_add]; abel

variable [Roller ρ]

theorem swaps_of_error {c : RollError} (h : Requested .one die ctx (.error c) last)
    (before : Multiset Number) : Swaps die ctx last before before 0 :=
  ⟨[], h.shownOn_eq, rfl⟩

theorem swaps_of_ok {x y : Number} (h : Requested .one die ctx (.ok [y]) last) :
    Swaps die ctx last {x} {y} {x} :=
  ⟨[y], h.shownOn_eq, add_comm _ _⟩

theorem RollsAgain.swaps {rejects : Number → Bool} {repetition : Repetition} {attempts : Nat}
    {x : Number} {result : Rerolled Number}
    (h : RollsAgain die rejects repetition attempts x ctx result last) :
    Swaps die ctx last {x} {result.kept} result.rejected := by
  induction h with
  | tired => exact swaps_refl die _ _
  | fails hrequest => exact swaps_of_error hrequest _
  | lands hrequest haccept => exact swaps_of_ok hrequest
  | again halways hrequest hreject hrest ih => exact (swaps_of_ok hrequest).trans ih

theorem RerollsAll.swaps {rejects : Number → Bool} {repetition : Repetition}
    {xs : List Number} {result : Rerolled (List Number)}
    (h : RerollsAll die rejects repetition xs ctx result last) :
    Swaps die ctx last xs result.kept result.rejected := by
  induction h with
  | done => exact swaps_refl die _ _
  | @spares x xs ys rest outcome ctx last hspare hrest ih => exact (swaps_refl die ctx {x}).add ih
  | @stops x y xs rejected c ctx last hreject hfirst =>
    have hall := hfirst.swaps.add (swaps_refl die last xs)
    rwa [add_zero] at hall
  | rerolls hreject hfirst hrest ih => exact hfirst.swaps.add ih

theorem Rerolls.swaps {r after : Roll} {relation : Relation} {target : Number}
    {repetition : Repetition} {outcome : Except RollError Unit}
    (h : Rerolls r relation target repetition ctx outcome after last) :
    ∃ new, last.roller.shownOn r.die = ctx.roller.shownOn r.die ++ new ∧
      after.values = r.values + (new : Multiset Number) := by
  cases h with
  | refused halways hescape =>
    exact ⟨[], (List.append_nil _).symm, (add_zero r.values).symm⟩
  | fails hall =>
    obtain ⟨new, hrecord, hvalues⟩ := hall.swaps
    exact ⟨new, hrecord, values_of_moved hvalues⟩
  | succeeds hall =>
    obtain ⟨new, hrecord, hvalues⟩ := hall.swaps
    refine ⟨new, hrecord, ?_⟩
    rw [values_sorted]
    exact values_of_moved hvalues

end Reroll

/-! ## Other changes -/

theorem values_keepHigh (r : Roll) (n : Nat) : (r.keepHigh n).values = r.values :=
  Multiset.coe_eq_coe.mpr (perm_keepHigh r n)

theorem values_keepLow (r : Roll) (n : Nat) : (r.keepLow n).values = r.values :=
  Multiset.coe_eq_coe.mpr (perm_keepLow r n)

theorem map_add_filter (outside : Number → Bool) (bound : Number) (xs : List Number) :
    (↑(xs.map fun x => if outside x then bound else x) : Multiset Number) +
        ↑(xs.filter outside) =
      (xs : Multiset Number) + Multiset.replicate (xs.countP outside) bound := by
  induction xs with
  | nil => rfl
  | cons x xs ih =>
    cases hx : outside x with
    | false =>
      rw [List.map_cons, List.filter_cons_of_neg (by simp [hx]),
        List.countP_cons_of_neg (by simp [hx]), hx, if_neg Bool.false_ne_true,
        ← Multiset.cons_coe, ← Multiset.cons_coe, Multiset.cons_add, ih, Multiset.cons_add]
    | true =>
      rw [List.map_cons, List.filter_cons_of_pos hx, List.countP_cons_of_pos hx, hx,
        if_pos rfl, ← Multiset.cons_coe, ← Multiset.cons_coe, ← Multiset.cons_coe,
        Multiset.cons_add, Multiset.add_cons, ih, Multiset.cons_add, Multiset.replicate_succ,
        Multiset.add_cons, Multiset.cons_swap]

theorem values_clamp (r : Roll) (relation : Relation) (bound : Number) :
    (r.clamp relation bound).values =
      r.values + Multiset.replicate (r.rolls.countP (relation.holds · bound)) bound := by
  rw [clamp, values_sorted]
  exact values_of_moved (map_add_filter (relation.holds · bound) bound r.rolls)

theorem values_count (r : Roll) (success : Number → Bool) :
    (r.count success).values =
      r.values + ↑(r.rolls.map fun x => Number.ofBool (success x)) := by
  rw [count, values_sorted]
  exact values_of_moved (add_comm _ _)

theorem coe_eraseIdx_add {xs : List Number} {i : Nat} {x : Number} (h : xs[i]? = some x) :
    (↑(xs.eraseIdx i) : Multiset Number) + {x} = xs := by
  obtain ⟨hlt, rfl⟩ := List.getElem?_eq_some_iff.mp h
  rw [add_comm]
  exact Multiset.coe_eq_coe.mpr (List.getElem_cons_eraseIdx_perm hlt)

theorem values_discard {r after : Roll} {i : Nat} {x : Number}
    (h : r.discard i = .ok (x, after)) : after.values = r.values := by
  unfold discard at h
  split at h
  · cases h
  · next hx =>
    cases h
    rw [← add_zero r.values]
    apply values_of_moved
    rw [add_zero]
    exact coe_eraseIdx_add hx

theorem replace_cases (r : Roll) (i : Nat) (x : Number) :
    (i < r.length ∧ ∃ y after, r.replace i x = .ok (y, after)) ∨
      (r.length ≤ i ∧ r.replace i x = .error (.nothingToReplace i r.length)) := by
  unfold replace
  cases hx : r.rolls[i]? with
  | none => exact .inr ⟨List.getElem?_eq_none_iff.mp hx, rfl⟩
  | some y =>
    obtain ⟨hlt, -⟩ := List.getElem?_eq_some_iff.mp hx
    exact .inl ⟨hlt, y, _, rfl⟩

theorem values_replace {r after : Roll} {i : Nat} {x y : Number}
    (h : r.replace i x = .ok (y, after)) : after.values = r.values + {x} := by
  unfold replace at h
  split at h
  · cases h
  · next hx =>
    cases h
    obtain ⟨hlt, -⟩ := List.getElem?_eq_some_iff.mp hx
    have hset : (↑(r.rolls.set i x) : Multiset Number) = {x} + ↑(r.rolls.eraseIdx i) :=
      Multiset.coe_eq_coe.mpr (List.set_perm_cons_eraseIdx hlt x)
    apply values_of_moved
    calc (↑(r.rolls.set i x) : Multiset Number) + {y}
        = {x} + (↑(r.rolls.eraseIdx i) + {y}) := by rw [hset, add_assoc]
      _ = r.rolls + {x} := by rw [coe_eraseIdx_add hx, add_comm]

/-! ## Any changes -/

/-- A change to a roll. A reroll comes with the context in which it rolls. -/
inductive Rework : Type 1 where
  | keepHigh (n : Nat)
  | keepLow (n : Nat)
  | floor (bound : Number)
  | ceiling (bound : Number)
  | countAtLeast (target : Number)
  | countAtMost (target : Number)
  | reroll {ρ : Type} [Roller ρ] (ctx : Context ρ) (relation : Relation) (target : Number)
      (repetition : Repetition)
  | discard (i : Nat)
  | replace (i : Nat) (x : Number)

namespace Rework

/-- What is left of a roll, also after a change that failed. -/
def apply : Rework → Roll → Roll
  | keepHigh n, r => r.keepHigh n
  | keepLow n, r => r.keepLow n
  | floor bound, r => r.floor bound
  | ceiling bound, r => r.ceiling bound
  | countAtLeast target, r => r.countAtLeast target
  | countAtMost target, r => r.countAtMost target
  | reroll ctx relation target repetition, r =>
    ((r.reroll relation target repetition).run ctx).1.2
  | discard i, r =>
    match r.discard i with
    | .ok (_, after) => after
    | .error _ => r
  | replace i x, r =>
    match r.replace i x with
    | .ok (_, after) => after
    | .error _ => r

/-- The values of the dice that a change draws. -/
def drawn : Rework → Roll → List Number
  | reroll ctx relation target repetition, r =>
    drawnBy (r.reroll relation target repetition) r.die ctx
  | _, _ => []

/-- How many entries a change overwrites. A reroll overwrites one for every die that it draws. -/
def overwritten : Rework → Roll → Nat
  | floor bound, r => r.rolls.countP (·.lt bound)
  | ceiling bound, r => r.rolls.countP (bound.lt ·)
  | countAtLeast _, r | countAtMost _, r => r.length
  | w@(reroll ..), r => (w.drawn r).length
  | replace i _, r => if i < r.length then 1 else 0
  | _, _ => 0

theorem values_reroll {ρ : Type} [Roller ρ] (ctx : Context ρ) (r : Roll) (relation : Relation)
    (target : Number) (repetition : Repetition) :
    (((r.reroll relation target repetition).run ctx).1.2).values =
      r.values + ↑(drawnBy (r.reroll relation target repetition) r.die ctx) := by
  have hmirror := mirrors_reroll r relation target repetition ctx.recording
  rw [Context.unrecorded_recording] at hmirror
  obtain ⟨new, hrecord, hvalues⟩ :=
    (rerolls_reroll r relation target repetition ctx.recording).swaps
  rw [hmirror, drawnBy, hrecord, hvalues]
  rfl

/-- What a change adds to the values of a roll. -/
theorem exists_added (w : Rework) (r : Roll) :
    ∃ added : Multiset Number, (w.apply r).values = r.values + added ∧
      (w.drawn r : Multiset Number) ≤ added ∧ added.card = w.overwritten r := by
  cases w with
  | keepHigh n => exact ⟨0, by rw [apply, values_keepHigh, add_zero], le_rfl, rfl⟩
  | keepLow n => exact ⟨0, by rw [apply, values_keepLow, add_zero], le_rfl, rfl⟩
  | floor bound =>
    exact ⟨_, values_clamp r .lower bound, Multiset.zero_le _, Multiset.card_replicate _ _⟩
  | ceiling bound =>
    exact ⟨_, values_clamp r .higher bound, Multiset.zero_le _, Multiset.card_replicate _ _⟩
  | countAtLeast target =>
    exact ⟨_, values_count r _, Multiset.zero_le _, List.length_map _⟩
  | countAtMost target =>
    exact ⟨_, values_count r _, Multiset.zero_le _, List.length_map _⟩
  | reroll ctx relation target repetition =>
    exact ⟨_, values_reroll ctx r relation target repetition, le_rfl, rfl⟩
  | discard i =>
    refine ⟨0, ?_, le_rfl, rfl⟩
    rw [apply, add_zero]
    cases h : r.discard i with
    | error c => rfl
    | ok found => exact values_discard h
  | replace i x =>
    rcases r.replace_cases i x with ⟨hlt, y, after, hreplace⟩ | ⟨hle, hreplace⟩
    · refine ⟨{x}, ?_, Multiset.zero_le _, by rw [overwritten, if_pos hlt]; rfl⟩
      rw [apply, hreplace]
      exact values_replace hreplace
    · refine ⟨0, ?_, le_rfl, by rw [overwritten, if_neg (by omega)]; rfl⟩
      rw [apply, hreplace, add_zero]

/-! ## Any number of changes -/

/-- What is left of a roll after some changes. -/
def applyAll : List Rework → Roll → Roll
  | [], r => r
  | w :: ws, r => applyAll ws (w.apply r)

/-- The values of the dice that some changes draw. -/
def drawnByAll : List Rework → Roll → List Number
  | [], _ => []
  | w :: ws, r => w.drawn r ++ drawnByAll ws (w.apply r)

/-- How many entries some changes overwrite. -/
def overwrittenByAll : List Rework → Roll → Nat
  | [], _ => 0
  | w :: ws, r => w.overwritten r + overwrittenByAll ws (w.apply r)

theorem exists_added_applyAll (ws : List Rework) (r : Roll) :
    ∃ added : Multiset Number, (applyAll ws r).values = r.values + added ∧
      (drawnByAll ws r : Multiset Number) ≤ added ∧ added.card = overwrittenByAll ws r := by
  induction ws generalizing r with
  | nil => exact ⟨0, (add_zero r.values).symm, le_rfl, rfl⟩
  | cons w ws ih =>
    obtain ⟨first, hvalues, hdrawn, hcard⟩ := w.exists_added r
    obtain ⟨others, hvalues', hdrawn', hcard'⟩ := ih (w.apply r)
    refine ⟨first + others, ?_, ?_, ?_⟩
    · rw [applyAll, hvalues', hvalues, add_assoc]
    · rw [drawnByAll, ← Multiset.coe_add]
      exact add_le_add hdrawn hdrawn'
    · rw [Multiset.card_add, hcard, hcard', overwrittenByAll]

end Rework

/-! ## From the first roll on -/

section First

variable {ρ : Type} [Roller ρ] {n : Nat} {die : Die} {ctx last : Context ρ} {r : Roll}

theorem values_rollDice (h : (RollM.rollDice n die).run.run ctx = (.ok r, last)) :
    r.values = ↑(drawnBy (RollM.rollDice n die).run die ctx) ∧ r.values.card = n := by
  obtain ⟨outcome, hrequest, hresult⟩ := RollM.requested_rollDice n die ctx.recording
  have hmirror := RollM.mirrors_rollDice n die ctx.recording
  rw [Context.unrecorded_recording, h, hresult] at hmirror
  cases outcome with
  | error c => cases hmirror
  | ok values =>
    cases hmirror
    have hsorted : (of values die).values = (values : Multiset Number) := by
      rw [Roll.values, discards_of, Multiset.coe_nil, add_zero]
      exact Multiset.coe_eq_coe.mpr (perm_rolls_of values die)
    rw [hsorted, drawnBy, hrequest.shownOn_eq]
    exact ⟨rfl, hrequest.length_eq⟩

/-- Whatever is done to a roll of dice, all values that were drawn for it are among its values
and discards, and these are as many as the dice and the overwritten entries together. -/
theorem drawn_le_values (h : (RollM.rollDice n die).run.run ctx = (.ok r, last))
    (ws : List Rework) :
    (↑(drawnBy (RollM.rollDice n die).run die ctx ++ Rework.drawnByAll ws r) : Multiset Number) ≤
        ↑((Rework.applyAll ws r).rolls ++ (Rework.applyAll ws r).discards) ∧
      (Rework.applyAll ws r).rolls.length + (Rework.applyAll ws r).discards.length =
        n + Rework.overwrittenByAll ws r := by
  obtain ⟨hfirst, hcount⟩ := values_rollDice h
  obtain ⟨added, hvalues, hdrawn, hcard⟩ := Rework.exists_added_applyAll ws r
  constructor
  · rw [← Multiset.coe_add, ← hfirst]
    change _ ≤ (Rework.applyAll ws r).values
    rw [hvalues]
    exact add_le_add_right hdrawn r.values
  · have hsum : (Rework.applyAll ws r).values.card = n + Rework.overwrittenByAll ws r := by
      rw [hvalues, Multiset.card_add, hcount, hcard]
    rw [values, Multiset.card_add] at hsum
    exact hsum

/-- Of two ones, a reroll with a budget for one die replaces only the first. -/
theorem drawn_le_values_after_failure :
    let d6 : Die := .sides ⟨6, by decide, by decide⟩
    let ctx := Context.start (some 2) (⟨[1, 1], .constant 1⟩ : Script)
    let short := Context.start (some 1) (⟨[3, 5], .constant 1⟩ : Script)
    let r := Roll.of [.int 1, .int 1] d6
    let ws : List Rework := [.reroll short .lower (.int 2) .once, .keepHigh 1]
    (∃ last, (RollM.rollDice 2 d6).run.run ctx = (.ok r, last)) ∧
      ((r.reroll .lower (.int 2) .once).run short).1.1 = .error .tooManyRolls ∧
      (↑(drawnBy (RollM.rollDice 2 d6).run d6 ctx ++ Rework.drawnByAll ws r) :
          Multiset Number) ≤
        ↑((Rework.applyAll ws r).rolls ++ (Rework.applyAll ws r).discards) ∧
      (Rework.applyAll ws r).rolls.length + (Rework.applyAll ws r).discards.length =
        2 + Rework.overwrittenByAll ws r := by
  intro d6 ctx short r ws
  have hroll : (RollM.rollDice 2 d6).run.run ctx =
      (.ok r, ((RollM.rollDice 2 d6).run.run ctx).2) := rfl
  have hr : r = ⟨[.int 1, .int 1], [], d6⟩ :=
    congrArg (Roll.mk · [] d6) (Number.sort_replicate 2 (.int 1))
  have hshort : ((r.reroll .lower (.int 2) .once).run short).1.1 = .error .tooManyRolls := by
    rw [hr]
    rfl
  exact ⟨⟨_, hroll⟩, hshort, drawn_le_values hroll ws⟩

end First

end Roll

end DiceNotation
