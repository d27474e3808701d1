import DiceNotation.Proofs.Rolling.Budget
import DiceNotation.Proofs.Rolling.Recording

/-!
# What is drawn for each value

A reroll draws values in place of a rejected one until it is done with it, and goes on to the next.
The relations below follow it with no bound on the attempts, so that a reroll that never ends
comes to nothing. They keep the values that are drawn for each value of the roll.

* `RollsAgain.redraws`, `RerollsAll.redrawsEach`: the bound on the attempts plays no part in what
  succeeds, nor where there is a budget.
* `exists_course`: how the dice that are drawn in a reroll are shared out among the values.
-/

namespace DiceNotation

variable {ρ : Type} [Roller ρ]

/-! ## Requests without their record -/

/-- What was requested with a record is requested without one. -/
theorem Requested.unrecorded {call : Roller.Call} {die : Die} {outcome : Except RollError (List Number)}
    {ctx last : Context (Recorded ρ)} (h : Requested call die ctx outcome last) :
    Requested call die ctx.unrecorded outcome last.unrecorded := by
  cases h with
  | exhausted hcount => exact .exhausted hcount
  | unrollable hcount hsides => exact .unrollable hcount hsides
  | @rolled s draws roller hcount hsides hdraws =>
    have hplain := Roller.commutes_roller.draw call s ctx.roller
    rw [hdraws] at hplain
    exact .rolled hcount hsides hplain

namespace Roll

/-! ## A value and what is drawn for it -/

/-- The last of the values that are drawn in place of a value, or the value itself. -/
def latest (x : Number) (draws : List Number) : Number := draws.getLastD x

/-- A value and those drawn in its place, but for the last of them. -/
def superseded (x : Number) (draws : List Number) : List Number := (x :: draws).dropLast

theorem latest_cons (x y : Number) (draws : List Number) :
    latest x (y :: draws) = latest y draws := List.getLastD_cons

theorem superseded_cons (x y : Number) (draws : List Number) :
    superseded x (y :: draws) = x :: superseded y draws := rfl

theorem length_superseded (x : Number) (draws : List Number) :
    (superseded x draws).length = draws.length := by
  simp [superseded]

/-- How values are drawn in place of a rejected one, which values, and how it ends. -/
inductive Redraws (die : Die) (rejects : Number → Bool) (repetition : Repetition) :
    Context ρ → List Number → Except RollError Unit → Context ρ → Prop where
  | fails {c : RollError} {ctx last : Context ρ} : Requested .one die ctx (.error c) last →
      Redraws die rejects repetition ctx [] (.error c) last
  | lands {y : Number} {ctx last : Context ρ} : Requested .one die ctx (.ok [y]) last →
      (repetition = .always → rejects y = false) →
      Redraws die rejects repetition ctx [y] (.ok ()) last
  | again {y : Number} {draws : List Number} {outcome : Except RollError Unit}
      {ctx mid last : Context ρ} : repetition = .always → Requested .one die ctx (.ok [y]) mid →
      rejects y = true → Redraws die rejects repetition mid draws outcome last →
      Redraws die rejects repetition ctx (y :: draws) outcome last

/-- How values are drawn for each of some values, up to a failure. -/
inductive RedrawsEach (die : Die) (rejects : Number → Bool) (repetition : Repetition) :
    List Number → Context ρ → List (List Number) → Except RollError Unit → Context ρ → Prop where
  | done {ctx : Context ρ} : RedrawsEach die rejects repetition [] ctx [] (.ok ()) ctx
  | spares {x : Number} {xs : List Number} {draws : List (List Number)}
      {outcome : Except RollError Unit} {ctx last : Context ρ} : rejects x = false →
      RedrawsEach die rejects repetition xs ctx draws outcome last →
      RedrawsEach die rejects repetition (x :: xs) ctx ([] :: draws) outcome last
  | stops {x : Number} {xs ys : List Number} {c : RollError} {ctx last : Context ρ} :
      rejects x = true → Redraws die rejects repetition ctx ys (.error c) last →
      RedrawsEach die rejects repetition (x :: xs) ctx (ys :: xs.map fun _ => []) (.error c) last
  | redraws {x : Number} {xs ys : List Number} {draws : List (List Number)}
      {outcome : Except RollError Unit} {ctx mid last : Context ρ} : rejects x = true →
      Redraws die rejects repetition ctx ys (.ok ()) mid →
      RedrawsEach die rejects repetition xs mid draws outcome last →
      RedrawsEach die rejects repetition (x :: xs) ctx (ys :: draws) outcome last

variable {die : Die} {rejects : Number → Bool} {repetition : Repetition} {m : Nat}
  {draws : List Number} {outcome : Except RollError Unit} {ctx mid last : Context ρ}

/-! ## Attempts -/

/-- Whether a budget comes to its end before so many attempts do. -/
structure Outlasts (m attempts : Nat) (ctx : Context ρ) : Prop where
  limit_eq : ctx.limit = some m
  lt_maxCount : m < maxCount
  pos : 0 < attempts
  lt_attempts : m < ctx.rolled + attempts

theorem Outlasts.request {attempts : Nat} {y : Number} (h : Outlasts m (attempts + 1) ctx)
    (hrequest : Requested .one die ctx (.ok [y]) mid) : Outlasts m attempts mid := by
  obtain ⟨hlimit, hm, -, hattempts⟩ := h
  have hcount := hrequest.rolled_eq_add hlimit hm
  have hle := hrequest.rolled_le hlimit
  rw [Roller.Call.count_one] at hcount
  exact ⟨hrequest.limit_eq.trans hlimit, hm, by omega, by omega⟩

/-- The attempts run out neither where rerolling succeeds nor where a budget ends before them. -/
theorem RollsAgain.redraws {attempts : Nat} {x : Number} {result : Rerolled Number}
    (h : RollsAgain die rejects repetition attempts x ctx result last)
    (hend : result.outcome = .error .tooManyRolls → ∃ m, Outlasts m attempts ctx) :
    ∃ draws, Redraws die rejects repetition ctx draws result.outcome last ∧
      result.kept = latest x draws ∧ result.rejected = superseded x draws := by
  induction h with
  | tired =>
    obtain ⟨m, houtlasts⟩ := hend rfl
    exact absurd houtlasts.pos (Nat.lt_irrefl 0)
  | fails hrequest => exact ⟨[], .fails hrequest, rfl, rfl⟩
  | @lands attempts x y ctx last hrequest haccept =>
    exact ⟨[y], .lands hrequest haccept, rfl, rfl⟩
  | @again attempts x y z outcome rejected ctx mid last halways hrequest hreject hrest ih =>
    obtain ⟨draws, hdraws, hkept, hrejected⟩ := ih fun hresult => by
      obtain ⟨m, houtlasts⟩ := hend hresult
      exact ⟨m, houtlasts.request hrequest⟩
    refine ⟨y :: draws, .again halways hrequest hreject hdraws, ?_, ?_⟩
    · rw [latest_cons]
      exact hkept
    · rw [superseded_cons, ← hrejected]

theorem zipWith_of_nothing {α : Type} (f : Number → List Number → α) (xs : List Number) :
    List.zipWith f xs (xs.map fun _ => []) = xs.map fun x => f x [] := by
  rw [List.zipWith_map_right, List.zipWith_self]

theorem flatten_of_nothing (ys xs : List Number) :
    (ys :: xs.map fun _ => ([] : List Number)).flatten = ys := by
  simp

theorem RerollsAll.redrawsEach {xs : List Number} {result : Rerolled (List Number)}
    (h : RerollsAll die rejects repetition xs ctx result last)
    (hend : result.outcome = .error .tooManyRolls → ∃ m, ctx.limit = some m ∧ m < maxCount) :
    ∃ draws, RedrawsEach die rejects repetition xs ctx draws result.outcome last ∧
      result.kept = List.zipWith latest xs draws ∧
      result.rejected = (List.zipWith superseded xs draws).flatten := by
  have houtlasts {ctx : Context ρ} (hlimit : ∃ m, ctx.limit = some m ∧ m < maxCount) :
      ∃ m, Outlasts m maxAttempts ctx := by
    obtain ⟨m, hlimit, hm⟩ := hlimit
    have hattempts : m < maxAttempts := Nat.lt_succ_of_lt hm
    exact ⟨m, hlimit, hm, by omega, by omega⟩
  induction h with
  | done => exact ⟨[], .done, rfl, rfl⟩
  | @spares x xs ys rest outcome ctx last hspare hrest ih =>
    obtain ⟨draws, hdraws, hkept, hrejected⟩ := ih hend
    exact ⟨[] :: draws, .spares hspare hdraws, congrArg (x :: ·) hkept, hrejected⟩
  | @stops x y xs rejected c ctx last hreject hfirst =>
    obtain ⟨ys, hys, hkept, hrejected⟩ := hfirst.redraws fun hresult => houtlasts (hend hresult)
    refine ⟨ys :: xs.map fun _ => [], .stops hreject hys, ?_, ?_⟩
    · rw [List.zipWith_cons_cons, zipWith_of_nothing, ← hkept]
      simp [latest]
    · rw [List.zipWith_cons_cons, zipWith_of_nothing, ← hrejected]
      simp [superseded]
  | @rerolls x y xs zs rejected rest outcome ctx mid last hreject hfirst hrest ih =>
    obtain ⟨ys, hys, hkept, hrejected⟩ := hfirst.redraws nofun
    obtain ⟨draws, hdraws, hkept', hrejected'⟩ := ih fun hresult => by
      obtain ⟨m, hlimit, hm⟩ := hend hresult
      exact ⟨m, hfirst.leads.limit_eq.trans hlimit, hm⟩
    refine ⟨ys :: draws, .redraws hreject hys hdraws, ?_, ?_⟩
    · rw [List.zipWith_cons_cons, ← hkept, ← hkept']
    · rw [List.zipWith_cons_cons, List.flatten_cons, ← hrejected, ← hrejected']

/-! ## The record -/

section Recorded

variable {ctx last : Context (Recorded ρ)}

theorem Redraws.shownOn_eq (h : Redraws die rejects repetition ctx draws outcome last) :
    last.roller.shownOn die = ctx.roller.shownOn die ++ draws := by
  induction h with
  | fails hrequest => exact hrequest.shownOn_eq
  | lands hrequest haccept => exact hrequest.shownOn_eq
  | again halways hrequest hreject hrest ih =>
    rw [ih, hrequest.shownOn_eq, List.append_assoc]
    rfl

theorem Redraws.unrecorded (h : Redraws die rejects repetition ctx draws outcome last) :
    Redraws die rejects repetition ctx.unrecorded draws outcome last.unrecorded := by
  induction h with
  | fails hrequest => exact .fails hrequest.unrecorded
  | lands hrequest haccept => exact .lands hrequest.unrecorded haccept
  | again halways hrequest hreject hrest ih => exact .again halways hrequest.unrecorded hreject ih

variable {xs : List Number} {draws : List (List Number)}

theorem RedrawsEach.shownOn_eq
    (h : RedrawsEach die rejects repetition xs ctx draws outcome last) :
    last.roller.shownOn die = ctx.roller.shownOn die ++ draws.flatten := by
  induction h with
  | done => exact (List.append_nil _).symm
  | spares hspare hrest ih => exact ih
  | stops hreject hfirst => rw [flatten_of_nothing, hfirst.shownOn_eq]
  | redraws hreject hfirst hrest ih => simp [ih, hfirst.shownOn_eq]

theorem RedrawsEach.unrecorded
    (h : RedrawsEach die rejects repetition xs ctx draws outcome last) :
    RedrawsEach die rejects repetition xs ctx.unrecorded draws outcome last.unrecorded := by
  induction h with
  | done => exact .done
  | spares hspare hrest ih => exact .spares hspare ih
  | stops hreject hfirst => exact .stops hreject hfirst.unrecorded
  | redraws hreject hfirst hrest ih => exact .redraws hreject hfirst.unrecorded ih

end Recorded

/-! ## Counting -/

theorem Redraws.rolled_eq (h : Redraws die rejects repetition ctx draws outcome last)
    (houtcome : outcome = .ok ()) : last.rolled = min (ctx.rolled + draws.length) maxCount := by
  induction h with
  | fails hrequest => cases houtcome
  | lands hrequest haccept => exact hrequest.rolled_eq
  | again halways hrequest hreject hrest ih =>
    have hfirst := hrequest.rolled_eq
    have hothers := ih houtcome
    rw [Roller.Call.count_one] at hfirst
    simp only [List.length_cons]
    omega

/-- As many values are drawn as the budget has left, and none beyond it. -/
theorem Redraws.length_le (h : Redraws die rejects repetition ctx draws outcome last)
    (hlimit : ctx.limit = some m) (hm : m < maxCount) :
    ctx.rolled + draws.length ≤ max ctx.rolled m := by
  induction h with
  | fails hrequest => exact Nat.le_max_left _ _
  | lands hrequest haccept =>
    have hcount := hrequest.rolled_eq_add hlimit hm
    have hle := hrequest.rolled_le hlimit
    rw [Roller.Call.count_one] at hcount
    simp only [List.length_singleton]
    omega
  | again halways hrequest hreject hrest ih =>
    have hcount := hrequest.rolled_eq_add hlimit hm
    have hle := hrequest.rolled_le hlimit
    have hothers := ih (hrequest.limit_eq.trans hlimit)
    rw [Roller.Call.count_one] at hcount
    simp only [List.length_cons]
    omega

theorem Redraws.limit_eq (h : Redraws die rejects repetition ctx draws outcome last) :
    last.limit = ctx.limit := by
  induction h with
  | fails hrequest => exact hrequest.limit_eq
  | lands hrequest haccept => exact hrequest.limit_eq
  | again halways hrequest hreject hrest ih => rw [ih, hrequest.limit_eq]

section Each

variable {xs : List Number} {draws : List (List Number)}

theorem RedrawsEach.rolled_eq (h : RedrawsEach die rejects repetition xs ctx draws outcome last)
    (houtcome : outcome = .ok ()) (hcount : ctx.rolled + draws.flatten.length ≤ maxCount) :
    last.rolled = ctx.rolled + draws.flatten.length := by
  induction h with
  | done => rfl
  | spares hspare hrest ih => exact ih houtcome hcount
  | stops hreject hfirst => cases houtcome
  | redraws hreject hfirst hrest ih =>
    have hmid := hfirst.rolled_eq rfl
    simp only [List.flatten_cons, List.length_append] at hcount ⊢
    have hothers := ih houtcome (by omega)
    omega

theorem RedrawsEach.length_le (h : RedrawsEach die rejects repetition xs ctx draws outcome last)
    (hlimit : ctx.limit = some m) (hm : m < maxCount) :
    ctx.rolled + draws.flatten.length ≤ max ctx.rolled m := by
  induction h with
  | done => exact Nat.le_max_left _ _
  | spares hspare hrest ih => exact ih hlimit
  | stops hreject hfirst =>
    rw [flatten_of_nothing]
    exact hfirst.length_le hlimit hm
  | redraws hreject hfirst hrest ih =>
    have hle := hfirst.length_le hlimit hm
    have hmid := hfirst.rolled_eq rfl
    have hothers := ih (hfirst.limit_eq.trans hlimit)
    simp only [List.flatten_cons, List.length_append]
    omega

end Each

/-! ## A roll -/

/-- How the dice that a reroll draws are shared out among the values of a roll, and what becomes of
them. The order is only restored by a reroll that succeeds. -/
structure Course (r : Roll) (relation : Relation) (target : Number) (repetition : Repetition)
    (ctx : Context ρ) (outcome : Except RollError Unit) (after : Roll) (last : Context ρ)
    (draws : List (List Number)) : Prop where
  redrawsEach :
    RedrawsEach r.die (relation.holds · target) repetition r.rolls ctx draws outcome last
  flatten_eq : draws.flatten = drawnBy (r.reroll relation target repetition) r.die ctx
  rolls_of_ok : outcome = .ok () →
    after.rolls = Number.sort (List.zipWith latest r.rolls draws)
  rolls_of_error : ∀ c, outcome = .error c → after.rolls = List.zipWith latest r.rolls draws
  discards_eq :
    after.discards = r.discards ++ (List.zipWith superseded r.rolls draws).flatten

/-- A reroll is refused before anything is drawn, or it has a course. This takes a budget, unless
it ends otherwise than for want of one. -/
theorem exists_course (r : Roll) (relation : Relation) (target : Number) (repetition : Repetition)
    (ctx : Context ρ)
    (hend : ((r.reroll relation target repetition).run ctx).1.1 = .error .tooManyRolls →
      ∃ m, ctx.limit = some m ∧ m < maxCount) :
    let run := (r.reroll relation target repetition).run ctx
    run = ((.error (.endlessReroll r.die), r), ctx) ∧
        drawnBy (r.reroll relation target repetition) r.die ctx = [] ∨
      ∃ draws, Course r relation target repetition ctx run.1.1 run.1.2 run.2 draws := by
  intro run
  have hmirror : run = _ := mirrors_reroll r relation target repetition ctx.recording
  have hreroll := rerolls_reroll r relation target repetition ctx.recording
  have hdrawn : drawnBy (r.reroll relation target repetition) r.die ctx =
    ((r.reroll relation target repetition).run ctx.recording).2.roller.shownOn r.die := rfl
  change run.1.1 = .error .tooManyRolls → _ at hend
  rw [hmirror] at hend ⊢
  generalize (r.reroll relation target repetition).run ctx.recording = recorded
    at hreroll hdrawn hend ⊢
  obtain ⟨⟨outcome, after⟩, last⟩ := recorded
  change r.Rerolls relation target repetition ctx.recording outcome after last at hreroll
  cases hreroll with
  | refused halways hescape => exact .inl ⟨rfl, hdrawn⟩
  | fails hall =>
    obtain ⟨draws, hdraws, hkept, hrejected⟩ := hall.redrawsEach hend
    refine .inr ⟨draws, hdraws.unrecorded, ?_, ?_, fun _ _ => hkept,
      congrArg (r.discards ++ ·) hrejected⟩
    · rw [hdrawn, hdraws.shownOn_eq]
      rfl
    · intro hok
      cases hok
  | succeeds hall =>
    obtain ⟨draws, hdraws, hkept, hrejected⟩ := hall.redrawsEach nofun
    refine .inr ⟨draws, hdraws.unrecorded, ?_, fun _ => congrArg Number.sort hkept, ?_,
      congrArg (r.discards ++ ·) hrejected⟩
    · rw [hdrawn, hdraws.shownOn_eq]
      rfl
    · intro c hc
      cases hc

end Roll

end DiceNotation
