import DiceNotation.Proofs.Operator.Applications
import Mathlib.Logic.Relation

/-!
# Keeping to the budget

Whatever is asked for, a context only ever counts dice and makes requests. So no more dice are
rolled than the budget allows, and once the budget is exceeded, nothing is rolled any more.

* `Operator.Applies.leads`: an operator only counts dice and makes requests.
* `Within.leads`, `Overdrawn.leads`: what holds before any of them holds after them.
-/

namespace DiceNotation

variable {ρ : Type}

namespace Context

@[simp] theorem limit_charge (ctx : Context ρ) (n : Nat) : (ctx.charge n).limit = ctx.limit := rfl

@[simp] theorem roller_charge (ctx : Context ρ) (n : Nat) : (ctx.charge n).roller = ctx.roller :=
  rfl

@[simp] theorem rolled_charge (ctx : Context ρ) (n : Nat) :
    (ctx.charge n).rolled = min (ctx.rolled + n) maxCount := rfl

theorem isExhausted_iff (ctx : Context ρ) {m : Nat} (h : ctx.limit = some m) :
    ctx.isExhausted = true ↔ m < ctx.rolled := by
  rw [isExhausted, h, Option.any_some, decide_eq_true_iff]

theorem not_isExhausted_iff (ctx : Context ρ) {m : Nat} (h : ctx.limit = some m) :
    ctx.isExhausted = false ↔ ctx.rolled ≤ m := by
  rw [← Bool.not_eq_true, isExhausted_iff ctx h, Nat.not_lt]

end Context

variable [Roller ρ] {m n : Nat} {call : Roller.Call} {die : Die} {ctx mid last : Context ρ}

/-! ## One request -/

theorem Die.rolledSides_ne_tooManyRolls (die : Die) : die.rolledSides ≠ .error .tooManyRolls := by
  cases die with
  | sides s => nofun
  | faces f =>
    rw [rolledSides]
    split <;> nofun

namespace Requested

variable {outcome : Except RollError (List Number)}

theorem limit_eq (h : Requested call die ctx outcome last) : last.limit = ctx.limit := by
  cases h <;> rfl

theorem rolled_eq (h : Requested call die ctx outcome last) :
    last.rolled = min (ctx.rolled + call.count) maxCount := by
  cases h <;> rfl

theorem roller_eq {c : RollError} (h : Requested call die ctx (.error c) last) :
    last.roller = ctx.roller := by
  cases h <;> rfl

theorem lt_rolled (h : Requested call die ctx (.error .tooManyRolls) last)
    (hlimit : ctx.limit = some m) : m < last.rolled := by
  cases h with
  | exhausted hcount => exact (Context.isExhausted_iff (ctx.charge call.count) hlimit).mp hcount
  | unrollable hcount hsides => exact absurd hsides die.rolledSides_ne_tooManyRolls

theorem rolled_le {values : List Number} (h : Requested call die ctx (.ok values) last)
    (hlimit : ctx.limit = some m) : last.rolled ≤ m := by
  cases h with
  | rolled hcount hsides hdraws =>
    exact (Context.not_isExhausted_iff (ctx.charge call.count) hlimit).mp hcount

/-- A successful request counts all its dice. The count has not come to its end by then. -/
theorem rolled_eq_add {values : List Number} (h : Requested call die ctx (.ok values) last)
    (hlimit : ctx.limit = some m) (hm : m < maxCount) : last.rolled = ctx.rolled + call.count := by
  have hle := h.rolled_le hlimit
  have heq := h.rolled_eq
  omega

theorem drawn_eq {ctx last : Context (Recorded ρ)} (h : Requested call die ctx outcome last) :
    last.roller.drawn = ctx.roller.drawn + (outcome.toOption.getD []).length := by
  have hshown := congrArg List.length h.shownOn_eq
  rwa [List.length_append, Recorded.length_shownOn, Recorded.length_shownOn] at hshown

end Requested

/-! ## Any number of steps -/

namespace Context

/-- What can happen to a context: dice are counted, or requested. -/
inductive Step : Context ρ → Context ρ → Prop where
  | counted (n : Nat) (ctx : Context ρ) : Step ctx (ctx.charge n)
  | requested {call : Roller.Call} {die : Die} {outcome : Except RollError (List Number)}
      {ctx last : Context ρ} : Requested call die ctx outcome last → Step ctx last

/-- Any number of steps. -/
def Leads : Context ρ → Context ρ → Prop := Relation.ReflTransGen Step

theorem Leads.refl (ctx : Context ρ) : ctx.Leads ctx := Relation.ReflTransGen.refl

theorem Leads.trans (h : ctx.Leads mid) (h' : mid.Leads last) : ctx.Leads last :=
  Relation.ReflTransGen.trans h h'

theorem Step.leads (h : Step ctx last) : ctx.Leads last := Relation.ReflTransGen.single h

theorem Step.limit_eq (h : Step ctx last) : last.limit = ctx.limit := by
  cases h with
  | counted n => rfl
  | requested hrequest => exact hrequest.limit_eq

theorem Leads.limit_eq (h : ctx.Leads last) : last.limit = ctx.limit := by
  induction h with
  | refl => rfl
  | tail hlead hstep ih => rw [hstep.limit_eq, ih]

end Context

open Context

theorem Requested.leads {outcome : Except RollError (List Number)}
    (h : Requested call die ctx outcome last) : ctx.Leads last :=
  (Step.requested h).leads

namespace Roll

variable {rejects : Number → Bool} {relation : Relation} {target : Number}
  {repetition : Repetition}

theorem RollsAgain.leads {attempts : Nat} {x : Number} {result : Rerolled Number}
    (h : RollsAgain die rejects repetition attempts x ctx result last) : ctx.Leads last := by
  induction h with
  | tired => exact Leads.refl _
  | fails hrequest => exact hrequest.leads
  | lands hrequest haccept => exact hrequest.leads
  | again halways hrequest hreject hrest ih => exact hrequest.leads.trans ih

theorem RerollsAll.leads {xs : List Number} {result : Rerolled (List Number)}
    (h : RerollsAll die rejects repetition xs ctx result last) : ctx.Leads last := by
  induction h with
  | done => exact Leads.refl _
  | spares hspare hrest ih => exact ih
  | stops hreject hfirst => exact hfirst.leads
  | rerolls hreject hfirst hrest ih => exact hfirst.leads.trans ih

theorem Rerolls.leads {r after : Roll} {outcome : Except RollError Unit}
    (h : Rerolls r relation target repetition ctx outcome after last) : ctx.Leads last := by
  cases h with
  | refused halways hescape => exact Leads.refl ctx
  | fails hall => exact hall.leads
  | succeeds hall => exact hall.leads

end Roll

theorem DiceKind.Throws.leads {kind : DiceKind} {outcome : Except RollError Roll}
    (h : kind.Throws n die ctx outcome last) : ctx.Leads last := by
  cases h with
  | rolled hkind hrequest => exact hrequest.leads
  | exhausted hkind hcount => exact (Step.counted n ctx).leads
  | counted face hkind hcount => exact (Step.counted n ctx).leads

theorem Operator.Applies.leads {op : Operator} {left : Option Value}
    {outcome : Except RollError Value} (h : op.Applies left ctx outcome last) :
    ctx.Leads last := by
  cases h with
  | calculated houtcome => exact Leads.refl ctx
  | thrown hop hthrow => exact hthrow.leads
  | rerolled hop hleft hreroll => exact hreroll.leads

/-! ## Within the budget -/

/-- No more dice were rolled than were counted, nor more than the budget allows. -/
structure Within (m : Nat) (ctx : Context (Recorded ρ)) : Prop where
  limit_eq : ctx.limit = some m
  drawn_le : ctx.roller.drawn ≤ m
  drawn_le_rolled : ctx.roller.drawn ≤ ctx.rolled

omit [Roller ρ] in
theorem within_start (m : Nat) (roller : ρ) :
    Within m (Context.start (some m) (Recorded.start roller)) :=
  ⟨rfl, Nat.zero_le m, Nat.le_refl _⟩

namespace Within

variable {ctx last : Context (Recorded ρ)}

theorem request {outcome : Except RollError (List Number)} (h : Within m ctx) (hm : m < maxCount)
    (hrequest : Requested call die ctx outcome last) : Within m last := by
  obtain ⟨hlimit, hbudget, hrolled⟩ := h
  have hlimit' : last.limit = some m := hrequest.limit_eq.trans hlimit
  have hdrawn := hrequest.drawn_eq
  cases outcome with
  | error c =>
    have hcount := hrequest.rolled_eq
    have hsame : last.roller.drawn = ctx.roller.drawn := hdrawn
    exact ⟨hlimit', by omega, by omega⟩
  | ok values =>
    have hcount := hrequest.rolled_eq_add hlimit hm
    have hle := hrequest.rolled_le hlimit
    have hmore : last.roller.drawn = ctx.roller.drawn + values.length := hdrawn
    rw [hrequest.length_eq] at hmore
    exact ⟨hlimit', by omega, by omega⟩

theorem step (h : Within m ctx) (hm : m < maxCount) (hstep : Step ctx last) : Within m last := by
  cases hstep with
  | counted n =>
    obtain ⟨hlimit, hbudget, hrolled⟩ := h
    refine ⟨hlimit, hbudget, ?_⟩
    rw [roller_charge, rolled_charge]
    omega
  | requested hrequest => exact h.request hm hrequest

theorem leads (h : Within m ctx) (hm : m < maxCount) (hlead : ctx.Leads last) :
    Within m last := by
  induction hlead with
  | refl => exact h
  | tail hlead hstep ih => exact ih.step hm hstep

end Within

/-! ## Beyond the budget -/

/-- More dice were counted than the budget allows. -/
structure Overdrawn (m : Nat) (ctx : Context ρ) : Prop where
  limit_eq : ctx.limit = some m
  lt_rolled : m < ctx.rolled

namespace Overdrawn

omit [Roller ρ] in
theorem charge (h : Overdrawn m ctx) (hm : m < maxCount) (n : Nat) :
    Overdrawn m (ctx.charge n) := by
  obtain ⟨hlimit, hlt⟩ := h
  refine ⟨hlimit, ?_⟩
  rw [rolled_charge]
  omega

/-- Every further request fails, even one for no dice. -/
theorem request {outcome : Except RollError (List Number)} (h : Overdrawn m ctx)
    (hm : m < maxCount) (hrequest : Requested call die ctx outcome last) :
    outcome = .error .tooManyRolls ∧ last = ctx.charge call.count := by
  have hcharge := h.charge hm call.count
  have hcount := (isExhausted_iff _ hcharge.limit_eq).mpr hcharge.lt_rolled
  cases hrequest with
  | exhausted hcount' => exact ⟨rfl, rfl⟩
  | unrollable hcount' hsides =>
    rw [hcount] at hcount'
    cases hcount'
  | rolled hcount' hsides hdraws =>
    rw [hcount] at hcount'
    cases hcount'

theorem step (h : Overdrawn m ctx) (hm : m < maxCount) (hstep : Step ctx last) :
    Overdrawn m last ∧ last.roller = ctx.roller := by
  cases hstep with
  | counted n => exact ⟨h.charge hm n, rfl⟩
  | requested hrequest =>
    obtain ⟨-, rfl⟩ := h.request hm hrequest
    exact ⟨h.charge hm _, rfl⟩

theorem leads (h : Overdrawn m ctx) (hm : m < maxCount) (hlead : ctx.Leads last) :
    Overdrawn m last ∧ last.roller = ctx.roller := by
  induction hlead with
  | refl => exact ⟨h, rfl⟩
  | tail hlead hstep ih =>
    obtain ⟨hmid, hroller⟩ := ih
    obtain ⟨hlast, hroller'⟩ := hmid.step hm hstep
    exact ⟨hlast, hroller'.trans hroller⟩

end Overdrawn

/-! ## Running out of dice -/

theorem overdrawn_of_requested (h : Requested call die ctx (.error .tooManyRolls) last)
    (hlimit : ctx.limit = some m) : Overdrawn m last :=
  ⟨h.limit_eq.trans hlimit, h.lt_rolled hlimit⟩

namespace Roll

variable {rejects : Number → Bool} {relation : Relation} {target : Number}
  {repetition : Repetition}

/-- Rerolling one value gives up only beyond the budget: the budget ends before the attempts
do, as each of them counts a die. -/
theorem RollsAgain.overdrawn {attempts : Nat} {x : Number} {result : Rerolled Number}
    (h : RollsAgain die rejects repetition attempts x ctx result last)
    (hresult : result.outcome = .error .tooManyRolls) (hlimit : ctx.limit = some m)
    (hm : m < maxCount) (hattempts : m < ctx.rolled + attempts) : Overdrawn m last := by
  induction h with
  | tired => exact ⟨hlimit, hattempts⟩
  | fails hrequest =>
    cases hresult
    exact overdrawn_of_requested hrequest hlimit
  | lands hrequest haccept => cases hresult
  | again halways hrequest hreject hrest ih =>
    have hcount := hrequest.rolled_eq_add hlimit hm
    rw [Roller.Call.count_one] at hcount
    exact ih hresult (hrequest.limit_eq.trans hlimit) (by omega)

theorem RerollsAll.overdrawn {xs : List Number} {result : Rerolled (List Number)}
    (h : RerollsAll die rejects repetition xs ctx result last)
    (hresult : result.outcome = .error .tooManyRolls) (hlimit : ctx.limit = some m)
    (hm : m < maxCount) : Overdrawn m last := by
  induction h with
  | done => cases hresult
  | spares hspare hrest ih => exact ih hresult hlimit
  | stops hreject hfirst =>
    have hattempts : m < maxAttempts := Nat.lt_succ_of_lt hm
    cases hresult
    exact hfirst.overdrawn rfl hlimit hm (by omega)
  | rerolls hreject hfirst hrest ih =>
    exact ih hresult (hfirst.leads.limit_eq.trans hlimit)

theorem Rerolls.overdrawn {r after : Roll}
    (h : Rerolls r relation target repetition ctx (.error .tooManyRolls) after last)
    (hlimit : ctx.limit = some m) (hm : m < maxCount) : Overdrawn m last := by
  cases h with
  | fails hall => exact hall.overdrawn rfl hlimit hm

/-- Beyond the budget, a reroll succeeds only where there is nothing to roll again. -/
theorem RerollsAll.eq_false_of_overdrawn {xs : List Number} {result : Rerolled (List Number)}
    (h : RerollsAll die rejects repetition xs ctx result last)
    (hresult : result.outcome = .ok ()) (hover : Overdrawn m ctx) (hm : m < maxCount) :
    ∀ x ∈ xs, rejects x = false := by
  induction h with
  | done => exact fun x hx => absurd hx List.not_mem_nil
  | spares hspare hrest ih => exact List.forall_mem_cons.mpr ⟨hspare, ih hresult hover⟩
  | stops hreject hfirst => cases hresult
  | rerolls hreject hfirst hrest ih =>
    cases hfirst with
    | lands hrequest haccept => cases (hover.request hm hrequest).1
    | again halways hrequest hreject hrest => cases (hover.request hm hrequest).1

theorem Rerolls.eq_false_of_overdrawn {r after : Roll}
    (h : Rerolls r relation target repetition ctx (.ok ()) after last) (hover : Overdrawn m ctx)
    (hm : m < maxCount) : ∀ x ∈ r.rolls, relation.holds x target = false := by
  cases h with
  | succeeds hall => exact hall.eq_false_of_overdrawn rfl hover hm

end Roll

namespace DiceKind

variable {kind : DiceKind} {outcome : Except RollError Roll}

theorem Throws.overdrawn (h : kind.Throws n die ctx outcome last)
    (houtcome : outcome = .error .tooManyRolls) (hlimit : ctx.limit = some m) :
    Overdrawn m last := by
  cases h with
  | @rolled values last hkind hrequest =>
    cases values with
    | ok values => cases houtcome
    | error c =>
      cases houtcome
      exact overdrawn_of_requested hrequest hlimit
  | exhausted hkind hcount =>
    exact ⟨hlimit, (isExhausted_iff (ctx.charge n) hlimit).mp hcount⟩
  | counted face hkind hcount => cases houtcome

theorem Throws.eq_error_of_overdrawn (h : kind.Throws n die ctx outcome last)
    (hover : Overdrawn m ctx) (hm : m < maxCount) : outcome = .error .tooManyRolls := by
  cases h with
  | rolled hkind hrequest =>
    rw [(hover.request hm hrequest).1]
    rfl
  | exhausted hkind hcount => rfl
  | counted face hkind hcount =>
    have hcharge := hover.charge hm n
    rw [(isExhausted_iff _ hcharge.limit_eq).mpr hcharge.lt_rolled] at hcount
    cases hcount

theorem Throws.roller_eq {c : RollError} (h : kind.Throws n die ctx outcome last)
    (houtcome : outcome = .error c) : last.roller = ctx.roller := by
  cases h with
  | @rolled values last hkind hrequest =>
    cases values with
    | ok values => cases houtcome
    | error c => exact hrequest.roller_eq
  | exhausted hkind hcount => rfl
  | counted face hkind hcount => rfl

end DiceKind

namespace Operator

variable {op : Operator} {left : Option Value} {outcome : Except RollError Value}

theorem Applies.overdrawn (h : op.Applies left ctx outcome last)
    (houtcome : outcome = .error .tooManyRolls) (hlimit : ctx.limit = some m)
    (hm : m < maxCount) : Overdrawn m last := by
  cases h with
  | calculated hcalculated =>
    rw [houtcome] at hcalculated
    exact absurd rfl hcalculated
  | @thrown kind n die thrown last hop hthrow =>
    cases thrown with
    | ok r => cases houtcome
    | error c =>
      cases houtcome
      exact hthrow.overdrawn rfl hlimit
  | @rerolled relation repetition r after target ended last hop hleft hreroll =>
    cases ended with
    | ok => cases houtcome
    | error c =>
      cases houtcome
      exact hreroll.overdrawn hlimit hm

/-- Beyond the budget, the operators that roll dice have no value. -/
theorem Applies.exists_error_of_overdrawn (h : op.Applies left ctx outcome last)
    (hdice : op.isDice = true) (hover : Overdrawn m ctx) (hm : m < maxCount) :
    ∃ c, outcome = .error c := by
  cases h with
  | calculated hcalculated =>
    cases outcome with
    | error c => exact ⟨c, rfl⟩
    | ok v =>
      rw [hcalculated.1] at hdice
      cases hdice
  | thrown hop hthrow =>
    rw [hthrow.eq_error_of_overdrawn hover hm]
    exact ⟨_, rfl⟩
  | rerolled hop hleft hreroll =>
    rw [hop] at hdice
    cases hdice

theorem Applies.roller_eq {c : RollError} (h : op.Applies left ctx outcome last)
    (houtcome : outcome = .error c) (hdice : op.isDice = true) : last.roller = ctx.roller := by
  cases h with
  | calculated hcalculated => rfl
  | @thrown kind n die thrown last hop hthrow =>
    cases thrown with
    | ok r => cases houtcome
    | error c => exact hthrow.roller_eq rfl
  | rerolled hop hleft hreroll =>
    rw [hop] at hdice
    cases hdice

end Operator

end DiceNotation
