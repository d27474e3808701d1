import DiceNotation.Proofs.Rolling.Requests
import DiceNotation.Roll.Reroll

/-!
# Two runs side by side

Two computations run alike if, begun in contexts that stand in a relation, they have the same
outcome and leave contexts that stand in it again. The rollers of the two contexts need not be of
the same kind.

* `Alike.bind`, `RollM.alike_bind`: what is made of parts that run alike runs alike.
* `rollsAlike_of_commutes`: dice are rolled alike where one roller follows the other.
* `Roll.alike_reroll`: rerolling runs alike where single dice do.
-/

namespace DiceNotation

variable {ρ σ α β : Type} {R : Context ρ → Context σ → Prop}

/-- Two computations with the same outcome, which keep a relation between their contexts. -/
def Alike (R : Context ρ → Context σ → Prop) (x : StateM (Context ρ) α)
    (y : StateM (Context σ) α) : Prop :=
  ∀ ctx other, R ctx other →
    (x.run ctx).1 = (y.run other).1 ∧ R (x.run ctx).2 (y.run other).2

theorem alike_pure (a : α) :
    Alike R (pure a : StateM (Context ρ) α) (pure a : StateM (Context σ) α) :=
  fun _ _ h => ⟨rfl, h⟩

theorem Alike.bind {x : StateM (Context ρ) α} {y : StateM (Context σ) α}
    {f : α → StateM (Context ρ) β} {g : α → StateM (Context σ) β} (h : Alike R x y)
    (hfg : ∀ a, Alike R (f a) (g a)) : Alike R (x >>= f) (y >>= g) := by
  intro ctx other hR
  obtain ⟨hvalue, hR'⟩ := h ctx other hR
  rw [StateT.run_bind, StateT.run_bind]
  generalize x.run ctx = first at hvalue hR' ⊢
  generalize y.run other = second at hvalue hR' ⊢
  obtain ⟨a, mid⟩ := first
  obtain ⟨b, mid'⟩ := second
  cases hvalue
  exact hfg a mid mid' hR'

namespace RollM

theorem alike_pure (a : α) : Alike R (pure a : RollM ρ α).run (pure a : RollM σ α).run :=
  DiceNotation.alike_pure (Except.ok a)

theorem alike_liftM (x : Except RollError α) :
    Alike R (liftM x : RollM ρ α).run (liftM x : RollM σ α).run := by
  cases x <;> exact DiceNotation.alike_pure _

theorem alike_bind {x : RollM ρ α} {y : RollM σ α} {f : α → RollM ρ β} {g : α → RollM σ β}
    (h : Alike R x.run y.run) (hfg : ∀ a, Alike R (f a).run (g a).run) :
    Alike R (x >>= f).run (y >>= g).run := by
  intro ctx other hR
  obtain ⟨hvalue, hR'⟩ := h ctx other hR
  rw [run_bind, run_bind]
  generalize x.run.run ctx = first at hvalue hR' ⊢
  generalize y.run.run other = second at hvalue hR' ⊢
  obtain ⟨outcome, mid⟩ := first
  obtain ⟨outcome', mid'⟩ := second
  cases hvalue
  cases outcome with
  | error c => exact ⟨rfl, hR'⟩
  | ok a => exact hfg a mid mid' hR'

end RollM

/-! ## Counting -/

/-- Two contexts with the same budget in which the same was counted. -/
structure SameCount (ctx : Context ρ) (other : Context σ) : Prop where
  limit_eq : ctx.limit = other.limit
  rolled_eq : ctx.rolled = other.rolled

theorem SameCount.charge {ctx : Context ρ} {other : Context σ} (h : SameCount ctx other)
    (n : Nat) : SameCount (ctx.charge n) (other.charge n) where
  limit_eq := h.limit_eq
  rolled_eq := congrArg (fun rolled => min (rolled + n) maxCount) h.rolled_eq

theorem SameCount.isExhausted_eq {ctx : Context ρ} {other : Context σ} (h : SameCount ctx other) :
    ctx.isExhausted = other.isExhausted := by
  rw [Context.isExhausted, Context.isExhausted, h.limit_eq, h.rolled_eq]

/-- Counting dice keeps the relation and fails on both sides or on neither. -/
def CountsAlike (R : Context ρ → Context σ → Prop) : Prop :=
  ∀ n, Alike R (RollM.count n : RollM ρ Unit).run (RollM.count n : RollM σ Unit).run

/-! ## Rolling -/

/-- Whether the map tells the second roller of related contexts from the first one, and any such
pair may take their places. -/
structure Pairs (φ : ρ → σ) (R : Context ρ → Context σ → Prop) : Prop where
  roller_eq : ∀ {ctx other}, R ctx other → other.roller = φ ctx.roller
  replace : ∀ {ctx other}, R ctx other →
    ∀ roller, R { ctx with roller } { other with roller := φ roller }

theorem RollM.alike_onRoller {φ : ρ → σ} (hpairs : Pairs φ R) {action : StateM ρ α}
    {action' : StateM σ α}
    (h : ∀ r, action'.run (φ r) = ((action.run r).1, φ (action.run r).2)) :
    Alike R (onRoller action).run (onRoller action').run := by
  intro ctx other hR
  rw [run_onRoller, run_onRoller, hpairs.roller_eq hR, h]
  exact ⟨rfl, hpairs.replace hR _⟩

variable [Roller ρ] [Roller σ]

/-- Rolling dice keeps the relation and shows the same on both sides. -/
structure RollsAlike (R : Context ρ → Context σ → Prop) : Prop where
  one : ∀ die, Alike R (RollM.rollDie die : RollM ρ Number).run
    (RollM.rollDie die : RollM σ Number).run
  many : ∀ n die, Alike R (RollM.rollDice n die : RollM ρ Roll).run
    (RollM.rollDice n die : RollM σ Roll).run

namespace Roller

/-- A map of rollers that rolls the same before and after. -/
structure Commutes (φ : ρ → σ) : Prop where
  roll (s : Sides) (r : ρ) : (roll s).run (φ r) = (((roll s).run r).1, φ ((roll s).run r).2)
  rollMany (n : Nat) (s : Sides) (r : ρ) :
    (rollMany n s).run (φ r) = (((rollMany n s).run r).1, φ ((rollMany n s).run r).2)

theorem Commutes.draw {φ : ρ → σ} (h : Commutes φ) (call : Call) (s : Sides) (r : ρ) :
    (call.draw s).run (φ r) = (((call.draw s).run r).1, φ ((call.draw s).run r).2) := by
  cases call with
  | one =>
    change ([((Roller.roll s).run (φ r)).1], ((Roller.roll s).run (φ r)).2) = _
    rw [h.roll]
    rfl
  | many n => exact h.rollMany n s r

/-- A recorded roller rolls as it would without its record. -/
theorem commutes_roller : Commutes (Recorded.roller (ρ := ρ)) where
  roll _ _ := rfl
  rollMany _ _ _ := rfl

end Roller

/-- Dice are rolled alike where one roller follows the other. -/
theorem rollsAlike_of_commutes {φ : ρ → σ} (hcount : CountsAlike R) (hpairs : Pairs φ R)
    (hφ : Roller.Commutes φ) : RollsAlike R where
  one _ := RollM.alike_bind (hcount 1) fun _ => RollM.alike_bind (RollM.alike_liftM _) fun s =>
    RollM.alike_bind (RollM.alike_onRoller hpairs (hφ.roll s)) fun _ => RollM.alike_pure _
  many n _ := RollM.alike_bind (hcount n) fun _ =>
    RollM.alike_bind (RollM.alike_liftM _) fun s =>
      RollM.alike_bind (RollM.alike_onRoller hpairs (hφ.rollMany n s)) fun _ => RollM.alike_pure _

/-! ### Another roller in the same context -/

namespace Context

omit [Roller ρ] [Roller σ]

/-- The same context with the roller that the map makes of its roller. -/
def map (φ : ρ → σ) (ctx : Context ρ) : Context σ := ⟨ctx.limit, ctx.rolled, φ ctx.roller⟩

theorem countsAlike_map (φ : ρ → σ) : CountsAlike fun ctx other => other = ctx.map φ := by
  rintro n ctx other rfl
  have hcharge : (ctx.map φ).charge n = (ctx.charge n).map φ := rfl
  have hexhausted : ((ctx.charge n).map φ).isExhausted = (ctx.charge n).isExhausted := rfl
  rw [RollM.run_count, RollM.run_count, hcharge, hexhausted]
  exact ⟨rfl, rfl⟩

theorem pairs_map (φ : ρ → σ) : Pairs φ fun ctx other => other = ctx.map φ where
  roller_eq := by
    rintro ctx other rfl
    rfl
  replace := by
    rintro ctx other rfl roller
    rfl

end Context

theorem rollsAlike_map (φ : ρ → σ) (hφ : Roller.Commutes φ) :
    RollsAlike fun ctx other => other = ctx.map φ :=
  rollsAlike_of_commutes (Context.countsAlike_map φ) (Context.pairs_map φ) hφ

/-! ## Rerolling -/

namespace Roll

variable {die : Die}
  (h : Alike R (RollM.rollDie die : RollM ρ Number).run (RollM.rollDie die : RollM σ Number).run)

include h

theorem alike_rerollOnce (x : Number) : Alike R (rerollOnce die x) (rerollOnce die x) := by
  apply Alike.bind h
  intro outcome
  cases outcome <;> exact alike_pure _

theorem alike_rerollUntil (rejects : Number → Bool) (attempts : Nat) (x : Number) :
    Alike R (rerollUntil die rejects attempts x) (rerollUntil die rejects attempts x) := by
  induction attempts generalizing x with
  | zero => exact alike_pure _
  | succ attempts ih =>
    apply Alike.bind (alike_rerollOnce h x)
    rintro ⟨outcome, kept, rejected⟩
    cases outcome with
    | error c => exact alike_pure _
    | ok =>
      dsimp only
      cases rejects kept with
      | false => exact alike_pure _
      | true =>
        apply Alike.bind (ih kept)
        intro last
        exact alike_pure _

theorem alike_rerollValue (rejects : Number → Bool) (repetition : Repetition) (x : Number) :
    Alike R (rerollValue die rejects repetition x) (rerollValue die rejects repetition x) := by
  unfold rerollValue
  cases rejects x with
  | false => exact alike_pure _
  | true =>
    cases repetition with
    | once => exact alike_rerollOnce h x
    | always => exact alike_rerollUntil h rejects maxAttempts x

theorem alike_rerollValues (rejects : Number → Bool) (repetition : Repetition)
    (xs : List Number) :
    Alike R (rerollValues die rejects repetition xs) (rerollValues die rejects repetition xs) := by
  induction xs with
  | nil => exact alike_pure _
  | cons x xs ih =>
    apply Alike.bind (alike_rerollValue h rejects repetition x)
    rintro ⟨outcome, kept, rejected⟩
    cases outcome with
    | error c => exact alike_pure _
    | ok =>
      apply Alike.bind ih
      intro others
      exact alike_pure _

omit h in
theorem alike_reroll (r : Roll) (relation : Relation) (target : Number)
    (repetition : Repetition)
    (h : Alike R (RollM.rollDie r.die : RollM ρ Number).run
      (RollM.rollDie r.die : RollM σ Number).run) :
    Alike R (r.reroll relation target repetition) (r.reroll relation target repetition) := by
  unfold reroll
  split
  · exact alike_pure _
  · apply Alike.bind (alike_rerollValues h _ repetition r.rolls)
    rintro ⟨outcome, kept, rejected⟩
    cases outcome <;> exact alike_pure _

end Roll

end DiceNotation
