import DiceNotation.Proofs.Evaluation.Cases
import DiceNotation.Proofs.Expr.Subtrees
import DiceNotation.Proofs.Rolling.Sequences
import Mathlib.Algebra.Ring.Nat

/-!
# Accounting for dice

After a successful evaluation the count of the context is the number of dice that were rolled
and of those that were only counted, at their mean or at their maximum.

* `Evaluates.covers`: the count of a successful evaluation, and that no throw has more dice than
  the budget.
* `Evaluates.rollsWithin`: no roll that is remembered has more values than the budget, if none
  had before.
-/

namespace DiceNotation

variable {ρ : Type} [Roller ρ] {m n : Nat}

open Context

/-! ## Requests and rerolls -/

section Accounts

variable {die : Die} {ctx mid last : Context (Recorded ρ)}

/-- Between two contexts, `k` dice were counted that were not rolled. -/
def Accounts (k : Nat) (ctx last : Context (Recorded ρ)) : Prop :=
  last.rolled + ctx.roller.drawn = ctx.rolled + last.roller.drawn + k

omit [Roller ρ] in
theorem accounts_refl (ctx : Context (Recorded ρ)) : Accounts 0 ctx ctx := rfl

omit [Roller ρ] in
theorem Accounts.trans {j k : Nat} (h : Accounts j ctx mid) (h' : Accounts k mid last) :
    Accounts (j + k) ctx last := by
  unfold Accounts at h h' ⊢
  omega

theorem Requested.accounts {values : List Number} (h : Requested call die ctx (.ok values) last)
    (hlimit : ctx.limit = some m) (hm : m < maxCount) : Accounts 0 ctx last := by
  have hcount := h.rolled_eq_add hlimit hm
  have hdrawn : last.roller.drawn = ctx.roller.drawn + values.length := h.drawn_eq
  rw [h.length_eq] at hdrawn
  unfold Accounts
  omega

namespace Roll

variable {rejects : Number → Bool} {relation : Relation} {target : Number}
  {repetition : Repetition}

theorem RollsAgain.accounts {attempts : Nat} {x : Number} {result : Rerolled Number}
    (h : RollsAgain die rejects repetition attempts x ctx result last)
    (hresult : result.outcome = .ok ()) (hlimit : ctx.limit = some m) (hm : m < maxCount) :
    Accounts 0 ctx last := by
  induction h with
  | tired => cases hresult
  | fails hrequest => cases hresult
  | lands hrequest haccept => exact hrequest.accounts hlimit hm
  | again halways hrequest hreject hrest ih =>
    have hfirst := hrequest.accounts hlimit hm
    exact hfirst.trans (ih hresult (hrequest.limit_eq.trans hlimit))

theorem RerollsAll.accounts {xs : List Number} {result : Rerolled (List Number)}
    (h : RerollsAll die rejects repetition xs ctx result last)
    (hresult : result.outcome = .ok ()) (hlimit : ctx.limit = some m) (hm : m < maxCount) :
    Accounts 0 ctx last := by
  induction h with
  | done => exact accounts_refl _
  | spares hspare hrest ih => exact ih hresult hlimit
  | stops hreject hfirst => cases hresult
  | rerolls hreject hfirst hrest ih =>
    have hfirst' := hfirst.accounts rfl hlimit hm
    exact hfirst'.trans (ih hresult (hfirst.leads.limit_eq.trans hlimit))

theorem RerollsAll.length_kept {xs : List Number} {result : Rerolled (List Number)}
    (h : RerollsAll die rejects repetition xs ctx result last) :
    result.kept.length = xs.length := by
  induction h with
  | done => rfl
  | spares hspare hrest ih => exact congrArg (· + 1) ih
  | stops hreject hfirst => rfl
  | rerolls hreject hfirst hrest ih => exact congrArg (· + 1) ih

theorem Rerolls.accounts {r after : Roll}
    (h : Rerolls r relation target repetition ctx (.ok ()) after last)
    (hlimit : ctx.limit = some m) (hm : m < maxCount) : Accounts 0 ctx last := by
  cases h with
  | succeeds hall => exact hall.accounts rfl hlimit hm

theorem Rerolls.length_eq {r after : Roll} {outcome : Except RollError Unit}
    (h : Rerolls r relation target repetition ctx outcome after last) :
    after.length = r.length := by
  cases h with
  | refused halways hescape => rfl
  | fails hall => exact hall.length_kept
  | succeeds hall =>
    rw [length_sorted]
    exact hall.length_kept

end Roll

/-! ## Operators -/

/-- The dice of a throw that are counted and not rolled. -/
def countedOnly (ts : List (DiceKind × Roll)) : Nat :=
  (ts.map fun t => if t.1.isRolled then 0 else t.2.length).sum

theorem countedOnly_append (ts us : List (DiceKind × Roll)) :
    countedOnly (ts ++ us) = countedOnly ts + countedOnly us := by
  rw [countedOnly, List.map_append, List.sum_append]
  rfl

/-- Between two contexts, exactly these throws were made, none of more dice than the budget. -/
def Covers (m : Nat) (ts : List (DiceKind × Roll)) (ctx last : Context (Recorded ρ)) : Prop :=
  Accounts (countedOnly ts) ctx last ∧ ∀ t ∈ ts, t.2.length ≤ m

omit [Roller ρ] in
theorem Accounts.covers_nil (h : Accounts 0 ctx last) (m : Nat) : Covers m [] ctx last :=
  ⟨h, fun _ ht => absurd ht List.not_mem_nil⟩

omit [Roller ρ] in
theorem Covers.append {ts us : List (DiceKind × Roll)} (h : Covers m ts ctx mid)
    (h' : Covers m us mid last) : Covers m (ts ++ us) ctx last := by
  refine ⟨?_, List.forall_mem_append.mpr ⟨h.2, h'.2⟩⟩
  rw [countedOnly_append]
  exact h.1.trans h'.1

/-- The throw that an operator has made, if its value is one, and how the dice were thrown. -/
def Operator.thrown : Operator → Option Value → List (DiceKind × Roll)
  | .binary (.dice kind), some (.roll r) => [(kind, r)]
  | _, _ => []

theorem DiceKind.Throws.accounts {kind : DiceKind} {outcome : Except RollError Roll} {r : Roll}
    (h : kind.Throws n die ctx outcome last) (houtcome : outcome = .ok r)
    (hlimit : ctx.limit = some m) (hm : m < maxCount) :
    Accounts (if kind.isRolled then 0 else r.length) ctx last ∧ r.length ≤ m := by
  cases h with
  | @rolled values last hkind hrequest =>
    cases values with
    | error c => cases houtcome
    | ok values =>
      cases houtcome
      have hcount := hrequest.rolled_eq_add hlimit hm
      have hle := hrequest.rolled_le hlimit
      rw [if_pos hkind, Roll.length_of, hrequest.length_eq]
      exact ⟨hrequest.accounts hlimit hm, by omega⟩
  | exhausted hkind hcount => cases houtcome
  | counted face hkind hcount =>
    cases houtcome
    have hle := (not_isExhausted_iff (ctx.charge n) hlimit).mp hcount
    rw [hkind, if_neg Bool.false_ne_true, Roll.length_of, List.length_replicate]
    rw [rolled_charge] at hle
    refine ⟨?_, by omega⟩
    rw [Accounts, rolled_charge, roller_charge]
    omega

namespace Operator

variable {op : Operator} {left : Option Value} {outcome : Except RollError Value} {v : Value}

theorem thrown_eq_nil (h : op.isDice = false) (value : Option Value) : op.thrown value = [] := by
  cases op with
  | sign s => rfl
  | factorial => rfl
  | binary b =>
    cases b with
    | dice kind => cases h
    | modifier m => rfl
    | arithmetic a => rfl
    | test t => rfl

theorem Applies.covers (h : op.Applies left ctx outcome last) (houtcome : outcome = .ok v)
    (hlimit : ctx.limit = some m) (hm : m < maxCount) :
    Covers m (op.thrown (some v)) ctx last := by
  cases h with
  | calculated hcalculated =>
    rw [houtcome] at hcalculated
    rw [thrown_eq_nil hcalculated.1]
    exact (accounts_refl ctx).covers_nil m
  | @thrown kind n die throw last hop hthrow =>
    cases throw with
    | error c => cases houtcome
    | ok r =>
      cases houtcome
      obtain ⟨haccounts, hle⟩ := hthrow.accounts rfl hlimit hm
      rw [hop]
      exact ⟨haccounts, List.forall_mem_singleton.mpr hle⟩
  | @rerolled relation repetition r after target ended last hop hleft hreroll =>
    cases ended with
    | error c => cases houtcome
    | ok =>
      rw [thrown_eq_nil (by rw [hop]; rfl)]
      exact (hreroll.accounts hlimit hm).covers_nil m

/-- The roll that an operator makes has no more values than the budget or the roll it reworks. -/
theorem Applies.length_le {r : Roll} (h : op.Applies left ctx outcome last)
    (houtcome : outcome = .ok (.roll r)) (hlimit : ctx.limit = some m) (hm : m < maxCount)
    (hleft : ∀ r, left = some (.roll r) → r.length ≤ m) : r.length ≤ m := by
  have hthrown := (h.covers houtcome hlimit hm).2
  cases h with
  | calculated hcalculated =>
    rw [houtcome] at hcalculated
    obtain ⟨before, hbefore, hle⟩ := hcalculated.2 r rfl
    exact Nat.le_trans hle (hleft before hbefore)
  | thrown hop hthrow =>
    rw [hop] at hthrown
    exact hthrown _ List.mem_cons_self
  | @rerolled relation repetition before after target ended last hop hbefore hreroll =>
    cases ended with
    | error c => cases houtcome
    | ok =>
      cases houtcome
      rw [hreroll.length_eq]
      exact hleft before hbefore

end Operator

end Accounts

/-! ## Evaluation -/

namespace Expr

/-- The throws that were made between two states of a tree, each with how the dice were thrown.
What is remembered before is not thrown again. -/
def thrown : Expr → Expr → List (DiceKind × Roll)
  | sign none _ x, sign _ _ x' => x.thrown x'
  | factorial none x, factorial _ x' => x.thrown x'
  | binary none _ x y, binary m b x' y' =>
    x.thrown x' ++ y.thrown y' ++ (Operator.binary b).thrown m
  | _, _ => []

theorem thrown_of_memory {e : Expr} {v : Value} (h : e.memory = some v) (e' : Expr) :
    e.thrown e' = [] := by
  cases e <;> cases h <;> rfl

theorem Evaluates.leads {ctx last : Context ρ} {e e' : Expr} {result : Except RollError Value}
    (h : Evaluates e ctx result e' last) : ctx.Leads last := by
  induction h with
  | remembered hm => exact .refl _
  | literal l ctx => exact .refl ctx
  | sign hx happly ih => exact ih.trans (Operator.applies_of_run happly).leads
  | signFails hx ih => exact ih
  | factorial hx happly ih => exact ih.trans (Operator.applies_of_run happly).leads
  | factorialFails hx ih => exact ih
  | binary hx hy happly ihx ihy =>
    exact (ihx.trans ihy).trans (Operator.applies_of_run happly).leads
  | leftFails hx ih => exact ih
  | rightFails hx hy ihx ihy => exact ihx.trans ihy

/-- A successful evaluation accounts for the throws that it made. -/
theorem Evaluates.covers {ctx last : Context (Recorded ρ)} {e e' : Expr}
    {result : Except RollError Value} {v : Value} (h : Evaluates e ctx result e' last)
    (hresult : result = .ok v) (hlimit : ctx.limit = some m) (hm : m < maxCount) :
    Covers m (e.thrown e') ctx last := by
  induction h generalizing v with
  | remembered hmemory =>
    rw [thrown_of_memory hmemory]
    exact (accounts_refl _).covers_nil m
  | literal l ctx => exact (accounts_refl ctx).covers_nil m
  | sign hx happly ih =>
    have hlimit' := hx.leads.limit_eq.trans hlimit
    have happlies := (Operator.applies_of_run happly).covers hresult hlimit' hm
    have hall := (ih rfl hlimit).append happlies
    rwa [Operator.thrown_eq_nil rfl, List.append_nil] at hall
  | signFails hx ih => cases hresult
  | factorialFails hx ih => cases hresult
  | factorial hx happly ih =>
    have hlimit' := hx.leads.limit_eq.trans hlimit
    have happlies := (Operator.applies_of_run happly).covers hresult hlimit' hm
    have hall := (ih rfl hlimit).append happlies
    rwa [Operator.thrown_eq_nil rfl, List.append_nil] at hall
  | binary hx hy happly ihx ihy =>
    have hlimit' := hx.leads.limit_eq.trans hlimit
    have hlimit'' := hy.leads.limit_eq.trans hlimit'
    have happlies := (Operator.applies_of_run happly).covers hresult hlimit'' hm
    rw [hresult]
    exact ((ihx rfl hlimit).append (ihy rfl hlimit')).append happlies
  | leftFails hx ih => cases hresult
  | rightFails hx hy ihx ihy => cases hresult

/-- If the root remembers a roll, it has no more values than a budget has dice. -/
def RollWithin (m : Nat) (e : Expr) : Prop := ∀ r, e.memory = some (.roll r) → r.length ≤ m

theorem rollWithin_of_forgetful {e : Expr} (h : e.memory = none) (m : Nat) : e.RollWithin m := by
  intro r hr
  rw [h] at hr
  cases hr

theorem rollWithin_of_applies {op : Operator} {left : Option Value} {e : Expr}
    {result : Except RollError Value} {ctx last : Context (Recorded ρ)}
    (h : op.Applies left ctx result last) (he : e.memory = result.toOption)
    (hlimit : ctx.limit = some m) (hm : m < maxCount)
    (hleft : ∀ r, left = some (.roll r) → r.length ≤ m) : e.RollWithin m := by
  intro r hr
  rw [he] at hr
  cases result with
  | error c => cases hr
  | ok v =>
    cases hr
    exact h.length_le rfl hlimit hm hleft

/-- Evaluation remembers no roll beyond the budget, also where it fails. -/
theorem Evaluates.rollsWithin {ctx last : Context (Recorded ρ)} {e e' : Expr}
    {result : Except RollError Value} (h : Evaluates e ctx result e' last)
    (hlimit : ctx.limit = some m) (hm : m < maxCount) (he : e.Everywhere (RollWithin m)) :
    e'.Everywhere (RollWithin m) := by
  induction h with
  | remembered hmemory => exact he
  | literal l ctx =>
    refine everywhere_literal.mpr fun r hr => ?_
    cases l <;> cases hr
  | sign hx happly ih =>
    have hlimit' := hx.leads.limit_eq.trans hlimit
    have hx' := ih hlimit (everywhere_sign.mp he).2
    refine everywhere_sign.mpr ⟨?_, hx'⟩
    exact rollWithin_of_applies (Operator.applies_of_run happly) rfl hlimit' hm nofun
  | signFails hx ih =>
    have hx' := ih hlimit (everywhere_sign.mp he).2
    exact everywhere_sign.mpr ⟨rollWithin_of_forgetful rfl m, hx'⟩
  | factorial hx happly ih =>
    have hlimit' := hx.leads.limit_eq.trans hlimit
    have hx' := ih hlimit (everywhere_factorial.mp he).2
    have hroot := hx'.root
    rw [RollWithin, hx.memory_eq] at hroot
    refine everywhere_factorial.mpr ⟨?_, hx'⟩
    exact rollWithin_of_applies (Operator.applies_of_run happly) rfl hlimit' hm hroot
  | factorialFails hx ih =>
    have hx' := ih hlimit (everywhere_factorial.mp he).2
    exact everywhere_factorial.mpr ⟨rollWithin_of_forgetful rfl m, hx'⟩
  | binary hx hy happly ihx ihy =>
    obtain ⟨-, hex, hey⟩ := everywhere_binary.mp he
    have hlimit' := hx.leads.limit_eq.trans hlimit
    have hlimit'' := hy.leads.limit_eq.trans hlimit'
    have hx' := ihx hlimit hex
    have hroot := hx'.root
    rw [RollWithin, hx.memory_eq] at hroot
    refine everywhere_binary.mpr ⟨?_, hx', ihy hlimit' hey⟩
    exact rollWithin_of_applies (Operator.applies_of_run happly) rfl hlimit'' hm hroot
  | leftFails hx ih =>
    obtain ⟨-, hex, hey⟩ := everywhere_binary.mp he
    exact everywhere_binary.mpr ⟨rollWithin_of_forgetful rfl m, ih hlimit hex, hey⟩
  | rightFails hx hy ihx ihy =>
    obtain ⟨-, hex, hey⟩ := everywhere_binary.mp he
    have hlimit' := hx.leads.limit_eq.trans hlimit
    exact everywhere_binary.mpr
      ⟨rollWithin_of_forgetful rfl m, ihx hlimit hex, ihy hlimit' hey⟩

end Expr

end DiceNotation
