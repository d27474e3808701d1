import DiceNotation.Proofs.Number.TotalOrder
import DiceNotation.Proofs.Roll.Ceiling
import DiceNotation.Proofs.Rolling.Fair
import DiceNotation.Proofs.Rolling.Rerolls

/-!
# Rolls in ascending order

A roll of integers is put into ascending order when it is thrown. Keeping takes values away at one
end, and clamping, counting and rerolling restore the order. Only a reroll that fails midway does
not: it leaves the values as they are at the moment, replaced ones beside those that it has not
come to.

* `isAscending_of`, `IsAscending.keepHigh` to `isAscending_count`: what leaves the order intact.
* `RerollsAll.failsAt`: what a reroll that fails leaves behind.
* `isAscending_reroll`: a reroll keeps the order, but for the values before the failure.
-/

namespace DiceNotation

/-! ## Integers -/

namespace Number

/-- Whether the number is stored as an integer. -/
def IsInteger (x : Number) : Prop := ∃ n : Int64, x = .int n

theorem isInteger_ofBool (b : Bool) : (ofBool b).IsInteger := by
  cases b
  · exact ⟨0, rfl⟩
  · exact ⟨1, rfl⟩

theorem IsInteger.le_trans {x y z : Number} (hx : x.IsInteger) (hy : y.IsInteger)
    (hz : z.IsInteger) (hxy : x.le y = true) (hyz : y.le z = true) : x.le z = true := by
  obtain ⟨m, rfl⟩ := hx
  obtain ⟨n, rfl⟩ := hy
  obtain ⟨k, rfl⟩ := hz
  exact le_int.mpr (Int.le_trans (le_int.mp hxy) (le_int.mp hyz))

theorem IsInteger.le_of_compareTotal {x y : Number} (hx : x.IsInteger) (hy : y.IsInteger)
    (h : compareTotal x y ≠ .gt) : x.le y = true := by
  obtain ⟨m, rfl⟩ := hx
  obtain ⟨n, rfl⟩ := hy
  exact le_int.mpr (Int.compare_ne_gt.mp h)

theorem haveOneOrder_of_integers {xs : List Number} (h : ∀ x ∈ xs, x.IsInteger) :
    haveOneOrder xs = true := by
  rw [haveOneOrder, Bool.or_eq_true]
  refine .inl (List.all_eq_true.mpr fun x hx => ?_)
  obtain ⟨n, rfl⟩ := h x hx
  rfl

theorem pairwise_le_sort {xs : List Number} (h : ∀ x ∈ xs, x.IsInteger) :
    (sort xs).Pairwise fun x y => x.le y = true := by
  refine (pairwise_sort (haveOneOrder_of_integers h)).imp_of_mem fun hx hy hle => ?_
  exact (h _ (mem_sort.mp hx)).le_of_compareTotal (h _ (mem_sort.mp hy)) hle

end Number

namespace Die

/-- Whether the die shows nothing but integers. -/
def isInteger : Die → Bool
  | sides _ => true
  | faces f => f.isInteger

theorem isInteger_shown {die : Die} (h : die.isInteger = true) (side : UInt32) :
    (die.shown side).IsInteger := by
  cases die with
  | sides s => exact ⟨_, rfl⟩
  | faces f => exact Faces.eq_int_of_isInteger h (f.mem_get side.toNat)

theorem isInteger_max {die : Die} (h : die.isInteger = true) : die.max.IsInteger := by
  cases die with
  | sides s => exact ⟨_, rfl⟩
  | faces f =>
    obtain ⟨m, hmax, -⟩ := Faces.exists_showsUpTo h
    exact ⟨m, hmax⟩

end Die

namespace Roll

/-- Whether the values that count are integers in ascending order. -/
structure IsAscending (r : Roll) : Prop where
  integers : ∀ x ∈ r.rolls, x.IsInteger
  ascending : r.rolls.Pairwise fun x y => x.le y = true

variable {r : Roll}

/-! ## Throwing -/

theorem isAscending_sorted (h : ∀ x ∈ r.rolls, x.IsInteger) : r.sorted.IsAscending where
  integers := fun x hx => h x (Number.mem_sort.mp hx)
  ascending := Number.pairwise_le_sort h

theorem isAscending_of {values : List Number} (h : ∀ x ∈ values, x.IsInteger) (die : Die) :
    (of values die).IsAscending where
  integers := fun x hx => h x (Number.mem_sort.mp hx)
  ascending := Number.pairwise_le_sort h

theorem isAscending_replicate (n : Nat) (m : Int64) (die : Die) :
    IsAscending ⟨List.replicate n (.int m), [], die⟩ where
  integers := fun _ hx => ⟨m, List.eq_of_mem_replicate hx⟩
  ascending := List.pairwise_replicate.mpr (.inr (Number.le_int.mpr (Int.le_refl _)))

/-! ## Reworking -/

theorem IsAscending.of_sublist {r' : Roll} (h : r.IsAscending)
    (hrolls : r'.rolls.Sublist r.rolls) : r'.IsAscending where
  integers := fun x hx => h.integers x (hrolls.subset hx)
  ascending := h.ascending.sublist hrolls

theorem IsAscending.keepHigh (h : r.IsAscending) (n : Nat) : (r.keepHigh n).IsAscending :=
  h.of_sublist (List.drop_sublist _ _)

theorem IsAscending.keepLow (h : r.IsAscending) (n : Nat) : (r.keepLow n).IsAscending :=
  h.of_sublist (List.take_sublist _ _)

theorem IsAscending.clamp {bound : Number} (h : r.IsAscending) (relation : Relation)
    (hbound : bound.IsInteger) : (r.clamp relation bound).IsAscending := by
  refine isAscending_sorted fun y hy => ?_
  obtain ⟨x, hx, rfl⟩ := List.mem_map.mp hy
  split
  · exact hbound
  · exact h.integers x hx

theorem isAscending_count (r : Roll) (success : Number → Bool) :
    (r.count success).IsAscending := by
  refine isAscending_sorted fun y hy => ?_
  obtain ⟨x, -, rfl⟩ := List.mem_map.mp hy
  exact Number.isInteger_ofBool _

/-! ## Rerolling -/

variable {ρ : Type} [Roller ρ] {die : Die} {rejects : Number → Bool} {repetition : Repetition}

theorem isInteger_requested (hdie : die.isInteger = true) {call : Roller.Call}
    {values : List Number} {ctx last : Context ρ} (h : Requested call die ctx (.ok values) last) :
    ∀ x ∈ values, x.IsInteger := by
  cases h with
  | rolled =>
    intro x hx
    obtain ⟨side, -, rfl⟩ := List.mem_map.mp hx
    exact Die.isInteger_shown hdie side

theorem RollsAgain.isInteger (hdie : die.isInteger = true) {attempts : Nat} {x : Number}
    {result : Rerolled Number} {ctx last : Context ρ}
    (h : RollsAgain die rejects repetition attempts x ctx result last) (hx : x.IsInteger) :
    result.kept.IsInteger := by
  induction h with
  | tired => exact hx
  | fails => exact hx
  | lands hrequest => exact isInteger_requested hdie hrequest _ List.mem_cons_self
  | again _ hrequest _ _ ih => exact ih (isInteger_requested hdie hrequest _ List.mem_cons_self)

theorem RerollsAll.isInteger (hdie : die.isInteger = true) {xs : List Number}
    {result : Rerolled (List Number)} {ctx last : Context ρ}
    (h : RerollsAll die rejects repetition xs ctx result last) (hxs : ∀ x ∈ xs, x.IsInteger) :
    ∀ y ∈ result.kept, y.IsInteger := by
  induction h with
  | done => exact hxs
  | spares _ _ ih =>
    obtain ⟨hx, hxs⟩ := List.forall_mem_cons.mp hxs
    exact List.forall_mem_cons.mpr ⟨hx, ih hxs⟩
  | stops _ hfirst =>
    obtain ⟨hx, hxs⟩ := List.forall_mem_cons.mp hxs
    exact List.forall_mem_cons.mpr ⟨hfirst.isInteger hdie hx, hxs⟩
  | rerolls _ hfirst _ ih =>
    obtain ⟨hx, hxs⟩ := List.forall_mem_cons.mp hxs
    exact List.forall_mem_cons.mpr ⟨hfirst.isInteger hdie hx, ih hxs⟩

/-- What a reroll leaves of some values that fails at an index: the value there was to be rolled
again, and all behind it are untouched, as are the values before it that were to be spared. -/
structure FailsAt (rejects : Number → Bool) (xs ys : List Number) (i : Nat) : Prop where
  rejected : ∃ x, xs[i]? = some x ∧ rejects x = true
  spared : ∀ j < i, ∀ x, xs[j]? = some x → rejects x = false → ys[j]? = some x
  untouched : ys.drop (i + 1) = xs.drop (i + 1)

theorem FailsAt.cons {x y : Number} {xs ys : List Number} {i : Nat}
    (h : FailsAt rejects xs ys i) (hfirst : rejects x = false → y = x) :
    FailsAt rejects (x :: xs) (y :: ys) (i + 1) where
  rejected := h.rejected
  spared := by
    intro j hj z hz hspare
    cases j with
    | zero =>
      cases hz
      rw [List.getElem?_cons_zero, hfirst hspare]
    | succ j => exact h.spared j (Nat.lt_of_succ_lt_succ hj) z hz hspare
  untouched := h.untouched

theorem RerollsAll.failsAt {xs : List Number} {result : Rerolled (List Number)}
    {ctx last : Context ρ} (h : RerollsAll die rejects repetition xs ctx result last)
    {c : RollError} (hc : result.outcome = .error c) :
    ∃ i, FailsAt rejects xs result.kept i := by
  induction h with
  | done => cases hc
  | spares _ _ ih =>
    obtain ⟨i, hi⟩ := ih hc
    exact ⟨i + 1, hi.cons fun _ => rfl⟩
  | stops hreject _ => exact ⟨0, ⟨_, rfl, hreject⟩, nofun, rfl⟩
  | rerolls hreject _ _ ih =>
    obtain ⟨i, hi⟩ := ih hc
    exact ⟨i + 1, hi.cons fun hspare => absurd (hreject.symm.trans hspare) nofun⟩

/-- Values are in order if those behind an index are and the others up to the one that follows. -/
theorem pairwise_iff_of_overlap {xs : List Number} {i : Nat} (hxs : ∀ x ∈ xs, x.IsInteger)
    (hdrop : (xs.drop i).Pairwise fun x y => x.le y = true) :
    xs.Pairwise (fun x y => x.le y = true) ↔
      (xs.take (i + 1)).Pairwise fun x y => x.le y = true := by
  refine ⟨fun h => h.sublist (List.take_sublist _ _), fun htake => ?_⟩
  rw [← List.take_append_drop i xs]
  rw [← List.take_append_drop i xs] at hxs
  rw [List.take_add, List.pairwise_append] at htake
  refine List.pairwise_append.mpr ⟨htake.1, hdrop, fun x hx z hz => ?_⟩
  cases hrest : xs.drop i with
  | nil =>
    rw [hrest] at hz
    cases hz
  | cons y rest =>
    rw [hrest] at htake hdrop hxs hz
    have hxy : x.le y = true := htake.2.2 x hx y List.mem_cons_self
    rcases List.mem_cons.mp hz with rfl | hz'
    · exact hxy
    · exact (hxs x (List.mem_append_left _ hx)).le_trans
        (hxs y (List.mem_append_right _ List.mem_cons_self)) (hxs z (List.mem_append_right _ hz))
        hxy ((List.pairwise_cons.mp hdrop).1 z hz')

theorem Rerolls.isAscending {relation : Relation} {target : Number} {after : Roll}
    {outcome : Except RollError Unit} {ctx last : Context ρ}
    (h : r.Rerolls relation target repetition ctx outcome after last) (hr : r.IsAscending)
    (hdie : r.die.isInteger = true) (hok : outcome = .ok ()) : after.IsAscending := by
  cases h with
  | refused => cases hok
  | fails => cases hok
  | succeeds hall => exact isAscending_sorted (hall.isInteger hdie hr.integers)

/-- A reroll of integers in ascending order that succeeds leaves them in ascending order. One that
fails changes nothing, or it stops at a value that was to be rolled again: all behind it are as
they were, and whether the order is intact is up to the values as far as the one that follows. -/
theorem isAscending_reroll (hr : r.IsAscending) (hdie : r.die.isInteger = true)
    (relation : Relation) (target : Number) (repetition : Repetition) (ctx : Context ρ) :
    let run := (r.reroll relation target repetition).run ctx
    let after := run.1.2
    (run.1.1 = .ok () → after.IsAscending) ∧
      ∀ c, run.1.1 = .error c → after = r ∨
        ∃ i, FailsAt (relation.holds · target) r.rolls after.rolls i ∧
          (after.IsAscending ↔
            (after.rolls.take (i + 2)).Pairwise fun x y => x.le y = true) := by
  intro run after
  have hreroll := rerolls_reroll r relation target repetition ctx
  refine ⟨hreroll.isAscending hr hdie, fun c hc => ?_⟩
  change r.Rerolls relation target repetition ctx run.1.1 after run.2 at hreroll
  generalize run.1.1 = outcome, after = after, run.2 = last at hreroll hc
  cases hreroll with
  | refused => exact .inl rfl
  | succeeds => cases hc
  | @fails c kept rejected last hall =>
    obtain ⟨i, hi⟩ := hall.failsAt rfl
    have hkept := hall.isInteger hdie hr.integers
    have hdrop : (kept.drop (i + 1)).Pairwise fun x y => x.le y = true := by
      rw [hi.untouched]
      exact hr.ascending.sublist (List.drop_sublist _ _)
    refine .inr ⟨i, hi, ?_⟩
    rw [← pairwise_iff_of_overlap hkept hdrop]
    exact ⟨IsAscending.ascending, fun hascending => ⟨hkept, hascending⟩⟩

/-- Ones that are rolled again as a three and a two come into order. -/
theorem isAscending_reroll_of_ones :
    let r : Roll := ⟨[.int 1, .int 1], [], .sides ⟨6, by decide, by decide⟩⟩
    let ctx := Context.start none (⟨[3, 2], .constant 1⟩ : Script)
    let run := (r.reroll .lower (.int 2) .once).run ctx
    r.IsAscending ∧ r.die.isInteger = true ∧ run.1.1 = .ok () ∧ run.1.2.IsAscending := by
  intro r ctx run
  have hr : r.IsAscending := isAscending_replicate 2 1 r.die
  have hok : run.1.1 = .ok () := rfl
  exact ⟨hr, rfl, hok, (isAscending_reroll hr rfl .lower (.int 2) .once ctx).1 hok⟩

/-- With a budget for one die, the first one becomes a three and stays in front of the second. -/
theorem not_isAscending_after_failure :
    let r : Roll := ⟨[.int 1, .int 1], [], .sides ⟨6, by decide, by decide⟩⟩
    let ctx := Context.start (some 1) (⟨[3], .constant 1⟩ : Script)
    let run := (r.reroll .lower (.int 2) .once).run ctx
    r.IsAscending ∧ r.die.isInteger = true ∧ run.1.1 = .error .tooManyRolls ∧
      run.1.2.rolls = [.int 3, .int 1] ∧ ¬run.1.2.IsAscending := by
  intro r ctx run
  have hr : r.IsAscending := isAscending_replicate 2 1 r.die
  have hrolls : run.1.2.rolls = [.int 3, .int 1] := rfl
  refine ⟨hr, rfl, rfl, hrolls, fun h => ?_⟩
  have hle := h.ascending
  rw [hrolls] at hle
  exact absurd hle (by decide)

end Roll

end DiceNotation
