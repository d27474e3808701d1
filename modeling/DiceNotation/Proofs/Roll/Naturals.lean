import DiceNotation.Proofs.Operator.Ordered
import DiceNotation.Proofs.Rolling.Budget

/-!
# Where the values of a twenty-sided die come from

A value that counts was drawn, by the throw or by a reroll, or an operator has put it in the place
of one that was: `f` and `c` put their bound, `t` and `T` a truth value. The die that a roll names
stays the same through all of this.

* `Recorded.Drew`: a side was drawn on a twenty-sided die; it stays so (`Recorded.Drew.leads`).
* `Modifier.Puts`: what the operators on rolls put in the place of values.
* `DiceKind.leaves_roll`, `Modifier.leaves_apply`: the values of a throw are drawn, and those that
  an operator leaves were there before, or they are drawn or put there.
-/

namespace DiceNotation

variable {ρ : Type}

/-! ## Sides and draws -/

/-- The number on a side of a die. -/
def Number.onSide (side : UInt32) : Number := .int (Int64.ofNat side.toNat)

theorem Number.eq_of_beq_onSide {a b : UInt32} (h : (onSide a == onSide b) = true) : a = b := by
  have ha : a.toNat < 2 ^ 32 := a.toNat_lt
  have hb : b.toNat < 2 ^ 32 := b.toNat_lt
  have hint := congrArg Int64.toInt (beq_int.mp h)
  rw [Int64.toInt_ofNat_of_lt (by omega), Int64.toInt_ofNat_of_lt (by omega)] at hint
  exact UInt32.toNat_inj.mp (Int.ofNat_inj.mp hint)

/-- Whether a side was drawn on a die with twenty sides. -/
def Recorded.Drew (side : UInt32) (r : Recorded ρ) : Prop :=
  ∃ s : Sides, s.count = 20 ∧ (s, side) ∈ r.record

/-- Whether some value that counts is the same number, and the die has twenty sides. -/
def Roll.ShowsOnD20 (x : Number) (r : Roll) : Prop :=
  r.die.isD20 = true ∧ ∃ y ∈ r.rolls, (y == x) = true

variable [Roller ρ] {k : UInt32} {n : Nat} {call : Roller.Call} {die : Die} {ctx mid last : Context (Recorded ρ)}

theorem Recorded.Drew.request {outcome : Except RollError (List Number)}
    (h : ctx.roller.Drew k) (hrequest : Requested call die ctx outcome last) :
    last.roller.Drew k := by
  cases hrequest with
  | exhausted hcount => exact h
  | unrollable hcount hsides => exact h
  | @rolled s draws roller hcount hsides hdraws =>
    obtain ⟨s', hcount', hmem⟩ := h
    have hrecord := call.record_draw s ctx.roller
    rw [hdraws] at hrecord
    refine ⟨s', hcount', ?_⟩
    change (s', k) ∈ roller.record
    rw [hrecord]
    exact List.mem_append_right _ hmem

theorem Recorded.Drew.leads (h : ctx.roller.Drew k) (hlead : ctx.Leads last) :
    last.roller.Drew k := by
  induction hlead with
  | refl => exact h
  | tail _ hstep ih =>
    cases hstep with
    | counted n => exact ih
    | requested hrequest => exact ih.request hrequest

/-- What a request for a twenty-sided die shows was drawn. -/
theorem Requested.drew {values : List Number} (h : Requested call die ctx (.ok values) last)
    (hdie : die.isD20 = true) {y : Number} (hy : y ∈ values) (hk : (y == .onSide k) = true) :
    last.roller.Drew k := by
  cases h with
  | @rolled s draws roller hcount hsides hdraws =>
    have hrecord := call.record_draw s ctx.roller
    rw [hdraws] at hrecord
    cases die with
    | faces f => cases hdie
    | sides s' =>
      cases hsides
      obtain ⟨side, hside, rfl⟩ := List.mem_map.mp hy
      obtain rfl : side = k := Number.eq_of_beq_onSide hk
      refine ⟨s, beq_iff_eq.mp hdie, ?_⟩
      change (s, side) ∈ roller.record
      rw [hrecord]
      exact List.mem_append_left _ (List.mem_reverse.mpr (List.mem_map_of_mem hside))

/-! ## Rerolls -/

namespace Roll

variable {rejects : Number → Bool} {relation : Relation} {target : Number}
  {repetition : Repetition}

theorem RollsAgain.drew {attempts : Nat} {x : Number} {result : Rerolled Number}
    (h : RollsAgain die rejects repetition attempts x ctx result last)
    (hresult : result.outcome = .ok ()) (hdie : die.isD20 = true)
    (hk : (result.kept == .onSide k) = true) : last.roller.Drew k := by
  induction h with
  | tired => cases hresult
  | fails hrequest => cases hresult
  | lands hrequest haccept => exact hrequest.drew hdie List.mem_cons_self hk
  | again halways hrequest hreject hrest ih => exact ih hresult hk

/-- What a reroll leaves was there before or was drawn for it. -/
theorem RerollsAll.mem_or_drew {xs : List Number} {result : Rerolled (List Number)}
    (h : RerollsAll die rejects repetition xs ctx result last)
    (hresult : result.outcome = .ok ()) (hdie : die.isD20 = true) {y : Number}
    (hy : y ∈ result.kept) (hk : (y == .onSide k) = true) : y ∈ xs ∨ last.roller.Drew k := by
  induction h with
  | done => exact .inl hy
  | spares hspare hrest ih =>
    rcases List.mem_cons.mp hy with rfl | hy
    · exact .inl List.mem_cons_self
    · exact (ih hresult hy).imp_left (List.mem_cons_of_mem _)
  | stops hreject hfirst => cases hresult
  | rerolls hreject hfirst hrest ih =>
    rcases List.mem_cons.mp hy with rfl | hy
    · exact .inr ((hfirst.drew rfl hdie hk).leads hrest.leads)
    · exact (ih hresult hy).imp_left (List.mem_cons_of_mem _)

theorem Rerolls.showsOnD20 {r after : Roll}
    (h : Rerolls r relation target repetition ctx (.ok ()) after last)
    (hafter : after.ShowsOnD20 (.onSide k)) :
    r.ShowsOnD20 (.onSide k) ∨ last.roller.Drew k := by
  obtain ⟨hdie, y, hy, hk⟩ := hafter
  rw [h.die_eq] at hdie
  cases h with
  | succeeds hall =>
    exact (hall.mem_or_drew rfl hdie (Number.mem_sort.mp hy) hk).imp_left fun hbefore =>
      ⟨hdie, y, hbefore, hk⟩

end Roll

/-! ## Operators -/

/-- Whether an operator puts a number in the place of some value of a roll, given what stands on
its right. -/
inductive Modifier.Puts (x : Number) (r : Roll) (right : Number) : Modifier → Prop where
  | floor {y : Number} : y ∈ r.rolls → y.lt right = true → (right == x) = true →
      Puts x r right .floor
  | ceiling {y : Number} : y ∈ r.rolls → right.lt y = true → (right == x) = true →
      Puts x r right .ceiling
  | countAtLeast {y : Number} : y ∈ r.rolls → (Number.ofBool (right.le y) == x) = true →
      Puts x r right .countAtLeast
  | countAtMost {y : Number} : y ∈ r.rolls → (Number.ofBool (y.le right) == x) = true →
      Puts x r right .countAtMost

namespace Roll

variable {r : Roll} {x : Number}

theorem ShowsOnD20.of_subset {after : Roll} (h : after.ShowsOnD20 x) (hdie : after.die = r.die)
    (hrolls : after.rolls ⊆ r.rolls) : r.ShowsOnD20 x := by
  obtain ⟨hd20, y, hy, hk⟩ := h
  exact ⟨hdie ▸ hd20, y, hrolls hy, hk⟩

theorem showsOnD20_of_clamp {relation : Relation} {bound : Number}
    (h : (r.clamp relation bound).ShowsOnD20 x) :
    r.ShowsOnD20 x ∨ r.die.isD20 = true ∧
      ∃ y ∈ r.rolls, relation.holds y bound = true ∧ (bound == x) = true := by
  obtain ⟨hdie, z, hz, hk⟩ := h
  obtain ⟨y, hy, rfl⟩ := List.mem_map.mp (Number.mem_sort.mp hz)
  split at hk
  · next houtside => exact .inr ⟨hdie, y, hy, houtside, hk⟩
  · exact .inl ⟨hdie, y, hy, hk⟩

theorem showsOnD20_of_count {success : Number → Bool} (h : (r.count success).ShowsOnD20 x) :
    r.die.isD20 = true ∧ ∃ y ∈ r.rolls, (Number.ofBool (success y) == x) = true := by
  obtain ⟨hdie, z, hz, hk⟩ := h
  obtain ⟨y, hy, rfl⟩ := List.mem_map.mp (Number.mem_sort.mp hz)
  exact ⟨hdie, y, hy, hk⟩

end Roll

namespace RollM

variable {α β : Type} {P : α → Recorded ρ → Prop} {Q : β → Prop}

/-- Whether all that a computation can come to is as it should be with the record it leaves. -/
def Leaves (x : RollM (Recorded ρ) α) (P : α → Recorded ρ → Prop) : Prop :=
  ∀ ctx a last, x.run.run ctx = (.ok a, last) → P a last.roller

omit [Roller ρ] in
theorem Leaves.bind {x : RollM (Recorded ρ) β} {f : β → RollM (Recorded ρ) α} (hx : Ensures x Q)
    (hf : ∀ b, Q b → Leaves (f b) P) : Leaves (x >>= f) P := by
  intro ctx a last h
  have hb := hx ctx
  rw [run_bind] at h
  generalize x.run.run ctx = run at hb h
  rcases run with ⟨c | b, mid⟩
  · cases h
  · exact hf b (hb b rfl) mid a last h

omit [Roller ρ] in
theorem leaves_pure {a : α} (h : ∀ r, P a r) : Leaves (pure a : RollM (Recorded ρ) α) P := by
  rintro ctx _ last ⟨⟩
  exact h _

omit [Roller ρ] in
theorem leaves_liftM {x : Except RollError α} (h : ∀ a, x = .ok a → ∀ r, P a r) :
    Leaves (liftM x : RollM (Recorded ρ) α) P := by
  intro ctx a last ha
  rw [run_liftM] at ha
  cases ha
  exact h a rfl _

omit [Roller ρ] in
theorem Leaves.map {x : RollM (Recorded ρ) α} (h : Leaves x P) {g : α → β}
    {Q : β → Recorded ρ → Prop} (hg : ∀ a r, P a r → Q (g a) r) :
    Leaves (x >>= fun a => pure (g a)) Q := by
  intro ctx b last hb
  have ha := h ctx
  rw [run_bind] at hb
  generalize x.run.run ctx = run at ha hb
  rcases run with ⟨c | a, mid⟩
  · cases hb
  · cases hb
    exact hg a _ (ha a _ rfl)

end RollM

open RollM

/-- Where dice are rolled, what a twenty-sided one shows was drawn. -/
theorem DiceKind.leaves_roll {kind : DiceKind} (hkind : kind.isRolled = true) (n : Nat) (die : Die)
    (k : UInt32) :
    Leaves (kind.roll n die : RollM (Recorded ρ) Roll)
      fun r record => r.ShowsOnD20 (.onSide k) → record.Drew k := by
  rintro ctx r last h ⟨hdie, y, hy, hk⟩
  have hthrow := kind.throws_roll n die ctx
  rw [h] at hthrow
  generalize hr : Except.ok r = result at hthrow
  cases hthrow with
  | @rolled outcome last hrolled hrequest =>
    cases outcome with
    | error c => cases hr
    | ok values =>
      cases hr
      exact hrequest.drew hdie ((Roll.perm_rolls_of values die).mem_iff.mp hy) hk
  | exhausted hcounted => cases hkind.symm.trans hcounted
  | counted face hcounted => cases hkind.symm.trans hcounted

namespace Modifier

variable {left right : Option Value} {x : Number}

/-- What an operator leaves of a twenty-sided die: the roll on the left shows it, or the operator
puts it there, or it was drawn for a reroll. -/
def Explains (m : Modifier) (left right : Option Value) (k : UInt32) (after : Roll)
    (record : Recorded ρ) : Prop :=
  ∃ r w, left = some (.roll r) ∧ right = some w ∧
    (after.ShowsOnD20 (.onSide k) → r.ShowsOnD20 (.onSide k) ∨
      r.die.isD20 = true ∧ m.Puts (.onSide k) r w.collapse ∨ record.Drew k)

omit [Roller ρ] in
/-- An operator that only reworks the roll, given the operand that says how. -/
theorem leaves_rework {m : Modifier} {k : UInt32} {α : Type} {amount : Except RollError α}
    {f : Roll → α → Roll}
    (h : ∀ r a record, amount = .ok a →
      m.Explains (ρ := ρ) (some (.roll r)) right k (f r a) record)
    {action : RollM (Recorded ρ) Roll}
    (haction : action = do
      let a ← amount
      return f (← (Operator.binary (.modifier m)).rollOperand .left left) a) :
    Leaves action (m.Explains left right k) := by
  rw [haction]
  refine .bind (ensures_liftM fun a ha => ha) fun a ha => ?_
  refine .bind (ensures_liftM fun r hr => Operator.eq_of_rollOperand _ hr) fun r hr => ?_
  exact leaves_pure fun record => hr ▸ h r a record ha

theorem leaves_apply (m : Modifier) (left right : Option Value) (k : UInt32) :
    Leaves (m.apply left right : RollM (Recorded ρ) Roll) (m.Explains left right k) := by
  cases m with
  | keepHigh =>
    refine leaves_rework (fun r n record hn => ?_) rfl
    obtain ⟨w, -, hw, -⟩ := Operator.collapse_of_countOperand hn
    exact ⟨r, w, rfl, hw, fun h => .inl (h.of_subset rfl (List.drop_subset _ _))⟩
  | keepLow =>
    refine leaves_rework (fun r n record hn => ?_) rfl
    obtain ⟨w, -, hw, -⟩ := Operator.collapse_of_countOperand hn
    exact ⟨r, w, rfl, hw, fun h => .inl (h.of_subset rfl (List.take_subset _ _))⟩
  | floor =>
    refine leaves_rework (fun r bound record hbound => ?_) rfl
    obtain ⟨w, hw, rfl⟩ := Operator.collapse_of_numberOperand hbound
    refine ⟨r, w, rfl, hw, fun h => (Roll.showsOnD20_of_clamp h).imp_right fun hput => ?_⟩
    obtain ⟨hdie, y, hy, hlow, hk⟩ := hput
    exact .inl ⟨hdie, .floor hy hlow hk⟩
  | ceiling =>
    refine leaves_rework (fun r bound record hbound => ?_) rfl
    obtain ⟨w, hw, rfl⟩ := Operator.collapse_of_numberOperand hbound
    refine ⟨r, w, rfl, hw, fun h => (Roll.showsOnD20_of_clamp h).imp_right fun hput => ?_⟩
    obtain ⟨hdie, y, hy, hhigh, hk⟩ := hput
    exact .inl ⟨hdie, .ceiling hy hhigh hk⟩
  | countAtLeast =>
    refine leaves_rework (fun r target record htarget => ?_) rfl
    obtain ⟨w, hw, rfl⟩ := Operator.collapse_of_numberOperand htarget
    refine ⟨r, w, rfl, hw, fun h => ?_⟩
    obtain ⟨hdie, y, hy, hk⟩ := Roll.showsOnD20_of_count h
    exact .inr (.inl ⟨hdie, .countAtLeast hy hk⟩)
  | countAtMost =>
    refine leaves_rework (fun r target record htarget => ?_) rfl
    obtain ⟨w, hw, rfl⟩ := Operator.collapse_of_numberOperand htarget
    refine ⟨r, w, rfl, hw, fun h => ?_⟩
    obtain ⟨hdie, y, hy, hk⟩ := Roll.showsOnD20_of_count h
    exact .inr (.inl ⟨hdie, .countAtMost hy hk⟩)
  | reroll relation repetition =>
    refine .bind (ensures_liftM fun target htarget =>
      Operator.collapse_of_numberOperand htarget) ?_
    rintro target ⟨w, hw, -⟩
    refine .bind (ensures_liftM fun r hr => Operator.eq_of_rollOperand _ hr) fun r hr => ?_
    intro ctx after last h
    refine ⟨r, w, hr, hw, fun hafter => ?_⟩
    have hreroll := Roll.rerolls_reroll r relation target repetition ctx
    rw [Roll.run_rerolled] at h
    generalize (r.reroll relation target repetition).run ctx = run at hreroll h
    rcases run with ⟨⟨c | ⟨⟩, found⟩, last⟩
    · cases h
    · cases h
      exact (hreroll.showsOnD20 hafter).imp_right .inr

end Modifier

/-- Only throws and operators on rolls come to a roll, and where the dice are rolled, what a
twenty-sided one shows has one of the reasons. -/
theorem Operator.leaves_apply {op : Operator}
    (hdice : ∀ kind, op = .binary (.dice kind) → kind.isRolled = true)
    (left right : Option Value) (k : UInt32) :
    Leaves (op.apply left right : RollM (Recorded ρ) Value) fun v record => ∀ after,
      v = .roll after → after.ShowsOnD20 (.onSide k) →
        record.Drew k ∨ ∃ m, op = .binary (.modifier m) ∧ m.Explains left right k after record := by
  have hnumber (result : Except ArithmeticError Number) (v : Value)
      (hv : ofArithmetic result = .ok v) (after : Roll) : v ≠ .roll after := by
    cases result <;> cases hv
    nofun
  cases op with
  | sign s => exact .bind (ensures_true _) fun x _ => leaves_pure fun record => nofun
  | factorial =>
    refine .bind (ensures_true _) fun x _ => leaves_liftM fun v hv record after hafter => ?_
    exact absurd hafter (hnumber _ v hv after)
  | binary b =>
    cases b with
    | dice kind =>
      refine .bind (ensures_true _) fun n _ => .bind (ensures_true _) fun die _ => ?_
      refine (kind.leaves_roll (hdice kind rfl) n die k).map ?_
      rintro r record hdrew _ ⟨⟩ hshows
      exact .inl (hdrew hshows)
    | modifier m =>
      refine (m.leaves_apply left right k).map ?_
      rintro r record hexplains _ ⟨⟩ -
      exact .inr ⟨m, rfl, hexplains⟩
    | arithmetic a =>
      refine .bind (ensures_true _) fun x _ => .bind (ensures_true _) fun y _ =>
        leaves_liftM fun v hv record after hafter => ?_
      exact absurd hafter (hnumber _ v hv after)
    | test t =>
      exact .bind (ensures_true _) fun x _ => .bind (ensures_true _) fun y _ =>
        leaves_pure fun record => nofun

end DiceNotation
