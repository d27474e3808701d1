import DiceNotation.Proofs.Evaluation.Totals
import DiceNotation.Proofs.Expr.Subtrees
import DiceNotation.Proofs.Formula.RoundTrip
import DiceNotation.Proofs.Report.Agreement
import DiceNotation.Proofs.Roll.Ceiling
import DiceNotation.Proofs.Rolling.Alike
import DiceNotation.Proofs.Rolling.Fair

/-!
# The maximum mode is an upper bound

In the maximum mode a throw has as many dice as in the normal mode, each at the greatest value that
it can show. This outlasts what keeps, clamps or counts values, and sums. So a sum of such rolls
comes to no more in the normal mode than in the maximum mode, and the budget ends both or neither.
A list of more faces than a die can have makes an exception: it is rolled in the maximum mode alone.

* `Expr.IsRollTerm.ends`, `Expr.IsSumOfRolls.ends`: the two evaluations side by side.
* `Formula.normal_below_maximum`: what both come to.
* `modes_part_at_limits`: where the modes part.
-/

namespace DiceNotation

variable {ρ σ : Type}

/-! ## Values that compare -/

namespace Value

/-- Rolls that compare. -/
inductive RollBelow : Value → Value → Prop where
  | intro {r top : Roll} : r.Below top → RollBelow (.roll r) (.roll top)

/-- Values that are no lists of faces and of which the first comes to no more than the second. -/
inductive Below : Value → Value → Prop where
  | number {x y : Number} : x.Below y → Below (.number x) (.number y)
  | roll {r top : Roll} : r.Below top → Below (.roll r) (.roll top)

variable {v w : Value}

theorem RollBelow.below (h : v.RollBelow w) : v.Below w := by
  cases h with
  | intro h => exact .roll h

theorem Below.collapse (h : v.Below w) : v.collapse.Below w.collapse := by
  cases h with
  | number h => exact h
  | roll h => exact h.sum

theorem Below.ne_faces (h : v.Below w) : (∀ f, v ≠ .faces f) ∧ ∀ f, w ≠ .faces f := by
  cases h <;> exact ⟨nofun, nofun⟩

end Value

/-! ## Modifiers -/

namespace Modifier

/-- The modifiers `h`, `l`, `f`, `c` and `t`, which make more of greater values. -/
def isMonotone : Modifier → Bool
  | keepHigh | keepLow | floor | ceiling | countAtLeast => true
  | reroll _ _ | countAtMost => false

/-- What a monotone modifier makes of a roll. -/
def reworked (m : Modifier) (k : Int64) (r : Roll) : Roll :=
  match m with
  | keepHigh => r.keepHigh k.toInt.toNat
  | keepLow => r.keepLow k.toInt.toNat
  | floor => r.floor (.int k)
  | ceiling => r.ceiling (.int k)
  | countAtLeast => r.countAtLeast (.int k)
  | reroll _ _ | countAtMost => r

theorem below_reworked {m : Modifier} {r top : Roll} (h : r.Below top) (k : Int64) :
    (m.reworked k r).Below (m.reworked k top) := by
  cases m with
  | keepHigh => exact h.keepHigh _
  | keepLow => exact h.keepLow _
  | floor => exact h.floor k
  | ceiling => exact h.ceiling k
  | countAtLeast => exact h.countAtLeast k
  | reroll relation repetition => exact h
  | countAtMost => exact h

theorem run_reworked [Roller ρ] {m : Modifier} (hm : m.isMonotone = true) {k : Int64}
    (hk : 0 ≤ k.toInt) (r : Roll) (ctx : Context ρ) :
    ((Operator.binary (.modifier m)).apply (some (.roll r)) (some (.number (.int k)))).run.run ctx =
      (.ok (.roll (m.reworked k r)), ctx) := by
  have hroll : (Operator.binary (.modifier m)).rollOperand .left (some (.roll r)) = .ok r := rfl
  have hnumber : (Operator.binary (.modifier m)).numberOperand .right (some (.number (.int k))) =
      .ok (.int k) := Operator.numberOperand_of_sums _ _ rfl nofun
  unfold Operator.apply
  simp only
  unfold BinaryOperator.apply Modifier.apply
  cases m with
  | keepHigh | keepLow =>
    simp only [RollM.run_bind, RollM.run_liftM, Operator.countOperand_int _ _ hk, hroll]
    rfl
  | floor | ceiling | countAtLeast =>
    simp only [RollM.run_bind, RollM.run_liftM, hnumber, hroll]
    rfl
  | reroll relation repetition => cases hm
  | countAtMost => cases hm

end Modifier

/-! ## Two evaluations side by side -/

/-- How an evaluation in the normal mode and one in the maximum mode end: both with results that
stand in a relation, or both beyond the budget. -/
inductive Ends {α β : Type} (P : α → β → Prop) :
    Except RollError α × Context ρ → Except RollError β × Context σ → Prop where
  | found {a : α} {b : β} {ctx : Context ρ} {other : Context σ} : P a b → SameCount ctx other →
      Ends P (.ok a, ctx) (.ok b, other)
  | exhausted {ctx : Context ρ} {other : Context σ} :
      Ends P (.error .tooManyRolls, ctx) (.error .tooManyRolls, other)

variable {α β γ δ : Type} {P : α → β → Prop} {ctx : Context ρ}
  {other : Context σ}

theorem Ends.map {Q : γ → δ → Prop} {first : Except RollError α × Context ρ}
    {second : Except RollError β × Context σ} (h : Ends P first second) {f : α → γ}
    {g : β → δ} (hPQ : ∀ {a b}, P a b → Q (f a) (g b)) :
    Ends Q (first.1.map f, first.2) (second.1.map g, second.2) := by
  cases h with
  | found hab hcount => exact .found (hPQ hab) hcount
  | exhausted => exact .exhausted

theorem Ends.imp {Q : α → β → Prop} {first : Except RollError α × Context ρ}
    {second : Except RollError β × Context σ} (h : Ends P first second)
    (hPQ : ∀ {a b}, P a b → Q a b) : Ends Q first second := by
  cases h with
  | found hab hcount => exact .found (hPQ hab) hcount
  | exhausted => exact .exhausted

theorem DiceKind.run_roll_maximum [Roller ρ] (n : Nat) (die : Die) (ctx : Context ρ) :
    (maximum.roll n die).run.run ctx =
      (if (ctx.charge n).isExhausted then .error .tooManyRolls
        else .ok (Roll.of (List.replicate n die.max) die), ctx.charge n) := by
  change (RollM.count n >>= fun _ => pure (Roll.of (List.replicate n die.max) die) :
    RollM ρ Roll).run.run ctx = _
  rw [RollM.run_bind, RollM.run_count]
  cases (ctx.charge n).isExhausted <;> rfl

variable [Roller ρ] [Roller σ]

/-- A throw in the normal mode is below the same throw in the maximum mode. -/
theorem DiceKind.ends_roll (hfair : Roller.IsFair ρ) {die : Die} {m : Int64}
    (hdie : die.ShowsUpTo m) (hnumberable : die.IsNumberable) (n : Nat)
    (hcount : SameCount ctx other) :
    Ends Roll.Below ((plain.roll n die : RollM ρ Roll).run.run ctx)
      ((maximum.roll n die : RollM σ Roll).run.run other) := by
  obtain ⟨hmax, hshown⟩ := hdie
  have hcharge := hcount.charge n
  obtain ⟨outcome, hrequest, hresult⟩ := RollM.requested_rollDice n die ctx
  change Ends Roll.Below ((RollM.rollDice n die).run.run ctx) _
  rcases hrun : (RollM.rollDice n die).run.run ctx with ⟨result, last⟩
  rw [hrun] at hrequest hresult
  obtain rfl : result = outcome.map (Roll.of · die) := hresult
  rw [run_roll_maximum, ← hcharge.isExhausted_eq, hmax]
  cases hrequest with
  | exhausted hover =>
    rw [Roller.Call.count_many] at hover
    rw [if_pos hover]
    exact .exhausted
  | unrollable hover hsides => exact absurd hsides (hnumberable.rolledSides_ne_error _)
  | @rolled s draws roller hover hsides hdraws =>
    have hfairly := hfair.rollMany n s ctx.roller
    have hlength := Roller.length_rollMany n s ctx.roller
    rw [Roller.Call.count_many] at hover
    rw [Roller.Call.draw_many] at hdraws
    rw [hdraws] at hfairly hlength
    have hvalues : ∀ x ∈ draws.map die.shown, x.IsIntUpTo m := by
      intro x hx
      obtain ⟨y, hy, rfl⟩ := List.mem_map.mp hx
      exact hshown s hsides y (hfairly y hy).1 (hfairly y hy).2
    have hbelow := Roll.below_of hvalues die die
    rw [List.length_map, hlength] at hbelow
    rw [hover]
    exact .found hbelow ⟨hcharge.limit_eq, hcharge.rolled_eq⟩

/-! ## Expressions -/

namespace Expr

/-- Rolls that are written as `n d s`, or as `n d` and a list of integers, and then any number of
monotone modifiers. All operands are literals. -/
inductive IsRollTerm : Expr → Prop where
  | sides {n s : Int64} : 0 ≤ n.toInt → 1 ≤ s.toInt → s.toInt < UInt32.size →
      IsRollTerm (binary none (.dice .plain) (int n) (int s))
  | faces {n : Int64} {f : Faces} : 0 ≤ n.toInt → f.isInteger = true →
      IsRollTerm (binary none (.dice .plain) (int n) (literal none (.faces f)))
  | modified {e : Expr} {m : Modifier} {k : Int64} : IsRollTerm e → m.isMonotone = true →
      0 ≤ k.toInt → IsRollTerm (binary none (.modifier m) e (int k))

/-- Sums of such rolls and of literals. -/
inductive IsSumOfRolls : Expr → Prop where
  | literal {n : Int64} : 0 ≤ n.toInt → IsSumOfRolls (int n)
  | rolls {e : Expr} : IsRollTerm e → IsSumOfRolls e
  | add {x y : Expr} : IsSumOfRolls x → IsSumOfRolls y →
      IsSumOfRolls (binary none (.arithmetic .plus) x y)

/-- Whether a die can have the faces of every list in the expression. -/
def ListsAreNumberable (e : Expr) : Prop :=
  ∀ f : Faces, literal none (.faces f) ∈ e.subtrees → (Die.faces f).IsNumberable

theorem ListsAreNumberable.binary {b : BinaryOperator} {x y : Expr}
    (h : (binary none b x y).ListsAreNumberable) :
    x.ListsAreNumberable ∧ y.ListsAreNumberable := by
  constructor
  · intro f hf
    exact h f (List.mem_cons_of_mem _ (List.mem_append_left _ hf))
  · intro f hf
    exact h f (List.mem_cons_of_mem _ (List.mem_append_right _ hf))

theorem IsRollTerm.clear_eq {e : Expr} (he : e.IsRollTerm) : e.clear = e := by
  induction he with
  | sides => rfl
  | faces => rfl
  | @modified e m k he hm hk ih => exact congrArg (binary none (.modifier m) · (int k)) ih

theorem IsSumOfRolls.clear_eq {e : Expr} (he : e.IsSumOfRolls) : e.clear = e := by
  induction he with
  | literal hn => rfl
  | rolls he => exact he.clear_eq
  | add hx hy ihx ihy => rw [clear, ihx, ihy]

/-- Two operators side by side, after their operands. -/
theorem ends_binary {P Q T : Value → Value → Prop} {b b' : BinaryOperator} {x x' y y' : Expr}
    (hx : Ends P (x.outcome ctx) (x'.outcome other))
    (hy : ∀ {mid : Context ρ} {mid' : Context σ}, SameCount mid mid' →
      Ends Q (y.outcome mid) (y'.outcome mid'))
    (happly : ∀ {v v' w w' : Value}, P v v' → Q w w' →
      ∀ {mid : Context ρ} {mid' : Context σ}, SameCount mid mid' →
        Ends T (((Operator.binary b).apply (some v) (some w)).run.run mid)
          (((Operator.binary b').apply (some v') (some w')).run.run mid')) :
    Ends T ((binary none b x y).outcome ctx) ((binary none b' x' y').outcome other) := by
  rw [outcome_binary, outcome_binary]
  generalize x.outcome ctx = first at hx
  generalize x'.outcome other = first' at hx
  cases hx with
  | exhausted => exact .exhausted
  | @found v v' mid mid' hv hmid =>
    have hright := hy hmid
    dsimp only
    generalize y.outcome mid = second at hright ⊢
    generalize y'.outcome mid' = second' at hright ⊢
    cases hright with
    | exhausted => exact .exhausted
    | found hw hlast => exact happly hv hw hlast

theorem ends_int (k : Int64) {ctx : Context ρ} {other : Context σ} (hcount : SameCount ctx other) :
    Ends (fun v w => v = .number (.int k) ∧ w = .number (.int k))
      ((int k).outcome ctx) ((int k).outcome other) := .found ⟨rfl, rfl⟩ hcount

omit [Roller σ] in
/-- A throw of dice, with a literal for the number of dice and another one for the die. -/
theorem outcome_dice {kind : DiceKind} {n : Int64} {l : Literal} {die : Die} (hn : 0 ≤ n.toInt)
    (hdie : (Operator.binary (.dice kind)).dieOperand .right (some l.toValue) = .ok die)
    (ctx : Context ρ) :
    (binary none (.dice kind) (int n) (literal none l)).outcome ctx =
      (((kind.roll n.toInt.toNat die).run.run ctx).1.map .roll,
        ((kind.roll n.toInt.toNat die).run.run ctx).2) := by
  rw [outcome_binary]
  exact Operator.run_dice (Operator.countOperand_int _ _ hn) hdie ctx

theorem ends_dice (hfair : Roller.IsFair ρ) {n m : Int64} {l : Literal} {die : Die}
    (hn : 0 ≤ n.toInt) (hdie : die.ShowsUpTo m) (hnumberable : die.IsNumberable)
    (hoperand : ∀ kind, (Operator.binary (.dice kind)).dieOperand .right (some l.toValue) = .ok die)
    {ctx : Context ρ} {other : Context σ} (hcount : SameCount ctx other) :
    Ends Value.RollBelow ((binary none (.dice .plain) (int n) (literal none l)).outcome ctx)
      ((binary none (.dice .maximum) (int n) (literal none l)).outcome other) := by
  have hthrow := DiceKind.ends_roll hfair hdie hnumberable n.toInt.toNat hcount
  rw [outcome_dice hn (hoperand _), outcome_dice hn (hoperand _)]
  exact hthrow.map fun hbelow => ⟨hbelow⟩

/-- A roll term in the normal mode and in the maximum mode. -/
theorem IsRollTerm.ends {e : Expr} (he : e.IsRollTerm) (hfair : Roller.IsFair ρ)
    (hlists : e.ListsAreNumberable)
    {ctx : Context ρ} {other : Context σ} (hcount : SameCount ctx other) :
    Ends Value.RollBelow (e.outcome ctx) ((e.raise .maximum).outcome other) := by
  induction he generalizing ctx other with
  | @sides n s hn hpos hlt =>
    let sides : Sides := ⟨s.toInt.toNat, by omega, by omega⟩
    have hsides : s.toInt = sides.count := by
      change s.toInt = (s.toInt.toNat : Int)
      omega
    exact ends_dice hfair hn (Die.showsUpTo_sides sides) trivial
      (fun _ => Operator.dieOperand_int _ _ hsides) hcount
  | @faces n f hn hf =>
    obtain ⟨m, hm⟩ := Faces.exists_showsUpTo hf
    have hnumberable := hlists.binary.2 f (mem_subtrees_self _)
    exact ends_dice hfair hn hm hnumberable (fun _ => Operator.dieOperand_faces _ _ f) hcount
  | @modified e m k he hm hk ih =>
    rw [raise_binary]
    refine ends_binary (ih hlists.binary.1 hcount) (ends_int k) ?_
    rintro _ _ _ _ ⟨hbelow⟩ ⟨rfl, rfl⟩ mid mid' hmid
    rw [Modifier.run_reworked hm hk]
    change Ends Value.RollBelow _
      (((Operator.binary (.modifier m)).apply _ (some (.number (.int k)))).run.run mid')
    rw [Modifier.run_reworked hm hk]
    exact .found ⟨Modifier.below_reworked hbelow k⟩ hmid

/-- A sum in the normal mode and in the maximum mode. -/
theorem IsSumOfRolls.ends {e : Expr} (he : e.IsSumOfRolls) (hfair : Roller.IsFair ρ)
    (hlists : e.ListsAreNumberable)
    {ctx : Context ρ} {other : Context σ} (hcount : SameCount ctx other) :
    Ends Value.Below (e.outcome ctx) ((e.raise .maximum).outcome other) := by
  induction he generalizing ctx other with
  | @literal n hn => exact .found (.number (Number.below_int (Int.le_refl _))) hcount
  | @rolls e he => exact (he.ends hfair hlists hcount).imp fun h => h.below
  | @add x y hx hy ihx ihy =>
    obtain ⟨hleft, hright⟩ := hlists.binary
    rw [raise_binary]
    refine ends_binary (ihx hleft hcount) (fun hmid => ihy hright hmid) ?_
    intro v v' w w' hv hw mid mid' hmid
    obtain ⟨hvlow, hvhigh⟩ := hv.ne_faces
    obtain ⟨hwlow, hwhigh⟩ := hw.ne_faces
    change Ends Value.Below _
      (((Operator.binary (.arithmetic .plus)).apply (some v') (some w')).run.run mid')
    rw [Operator.run_arithmetic_of_ne_faces _ hvlow hwlow,
      Operator.run_arithmetic_of_ne_faces _ hvhigh hwhigh]
    exact .found (.number (hv.collapse.add hw.collapse)) hmid

end Expr

/-! ## Formulas -/

namespace Formula

omit [Roller σ] in
/-- The total of a formula is exact if no sum on the way leaves the range. -/
theorem exists_int_of_sumsTo {e e' : Expr} (he : e.clear = e) {v : Value} {last : Context ρ}
    (h : e.evaluate.run ctx = ((.ok v, e'), last)) {z : Int} (hs : e'.SumsTo z) :
    ∃ n, v.collapse = .int n ∧ n.toInt = z := by
  have hcase := e.isCase_evaluate ctx
  rw [h] at hcase
  exact hcase.exists_int_of_sumsTo hs he

theorem applyMode_normal (f : Formula) : f.applyMode .normal = f := by
  cases f with
  | mk root => cases root <;> rfl

theorem applyMode_maximum (e : Expr) :
    (Formula.mk (some e)).applyMode (.ofKind .maximum) = ⟨some (e.raise .maximum)⟩ := by
  rw [← e.maxify_eq_raise]
  rfl

/-- A sum of rolls comes to no more in the normal mode than in the maximum mode, with any fair
roller in the one and any roller in the other, if both totals are integers. They are, and exact,
if no sum on the way leaves the 64-bit range. A budget that one of them exceeds, the other exceeds
as well. The lists of faces are those that a die can have. -/
theorem normal_below_maximum {e : Expr} (he : e.IsSumOfRolls) (hlists : e.ListsAreNumberable)
    (hfair : Roller.IsFair ρ) {ctx : Context ρ} {other : Context σ}
    (hlimit : ctx.limit = other.limit) :
    let low := (((Formula.mk (some e)).applyMode .normal).evaluate.run ctx).1
    let high := (((Formula.mk (some e)).applyMode (.ofKind .maximum)).evaluate.run other).1
    (low.1 = .error .tooManyRolls ∧ high.1 = .error .tooManyRolls) ∨
      ∃ x y e₁ e₂, low = (.ok x, ⟨some e₁⟩) ∧ high = (.ok y, ⟨some e₂⟩) ∧ x.Below y ∧
        (∀ z, e₁.SumsTo z → ∃ n, x = .int n ∧ n.toInt = z) ∧
        ∀ z, e₂.SumsTo z → ∃ n, y = .int n ∧ n.toInt = z := by
  intro low high
  have hends := he.ends hfair hlists (⟨hlimit, rfl⟩ : SameCount ctx.reset other.reset)
  have hclear : (e.raise .maximum).clear = e.raise .maximum := by
    rw [Expr.clear_raise, he.clear_eq]
  rcases hrun : e.evaluate.run ctx.reset with ⟨⟨result, e₁⟩, last⟩
  rcases hrun' : (e.raise .maximum).evaluate.run other.reset with ⟨⟨result', e₂⟩, last'⟩
  have hlow : low = (result.map Value.collapse, ⟨some e₁⟩) := by
    simp only [low, applyMode_normal, evaluate_of_root rfl hrun]
  have hhigh : high = (result'.map Value.collapse, ⟨some e₂⟩) := by
    simp only [high, applyMode_maximum, evaluate_of_root rfl hrun']
  rw [Expr.outcome, Expr.outcome, hrun, hrun'] at hends
  rw [hlow, hhigh]
  cases hends with
  | exhausted => exact .inl ⟨rfl, rfl⟩
  | found hvalues hcount =>
    exact .inr ⟨_, _, e₁, e₂, rfl, rfl, hvalues.collapse,
      fun z hz => exists_int_of_sumsTo he.clear_eq hrun hz,
      fun z hz => exists_int_of_sumsTo hclear hrun' hz⟩

/-- The best of `2d6` and a fudge die, which rolls a minus, and a three: all in all no more than
six, one and three. -/
theorem normal_below_maximum_kept_and_fudge :
    let e : Expr := .binary none (.arithmetic .plus)
      (.binary none (.arithmetic .plus)
        (.binary none (.modifier .keepHigh)
          (.binary none (.dice .plain) (.int 2) (.int 6)) (.int 1))
        (.binary none (.dice .plain) (.int 1) (.literal none (.faces .fudge))))
      (.int 3)
    let ctx := Context.start (some 3) (⟨[2, 5, 1], .constant 1⟩ : Script)
    let other := Context.start (some 3) (Script.seeded 7)
    let low := (((Formula.mk (some e)).applyMode .normal).evaluate.run ctx).1
    let high := (((Formula.mk (some e)).applyMode (.ofKind .maximum)).evaluate.run other).1
    e.IsSumOfRolls ∧ e.ListsAreNumberable ∧ Roller.IsFair Script ∧ ctx.limit = other.limit ∧
      ∃ x y, low.1 = .ok x ∧ high.1 = .ok y ∧ x.Below y := by
  intro e ctx other low high
  have he : e.IsSumOfRolls :=
    .add (.add (.rolls (.modified (.sides (by decide) (by decide) (by decide)) rfl (by decide)))
      (.rolls (.faces (by decide) rfl))) (.literal (by decide))
  have hlists : e.ListsAreNumberable := by
    intro f hf
    obtain rfl : f = .fudge := by simpa [e, Expr.subtrees, Expr.int] using hf
    exact (by decide : 3 < UInt32.size)
  have hlimit : ctx.limit = other.limit := rfl
  obtain ⟨x, hlow⟩ : ∃ x, low.1 = .ok x := ⟨_, rfl⟩
  refine ⟨he, hlists, Roller.isFair_script, hlimit, ?_⟩
  rcases normal_below_maximum he hlists Roller.isFair_script hlimit with
    ⟨hfails, -⟩ | ⟨x, y, e₁, e₂, hlow, hhigh, hle, -⟩
  · cases hlow.symm.trans hfails
  · exact ⟨x, y, congrArg Prod.fst hlow, congrArg Prod.fst hhigh, hle⟩

end Formula

/-! ## Where the modes part -/

section Apart

variable {r : Rollable} {ctx : Context Script}

/-- Whether a roll comes to a total in the normal mode and in the maximum mode, or is beyond the
budget in both. -/
def Rollable.EndsAlike (r : Rollable) (ctx : Context Script) : Prop :=
  let low := ((r.total .normal 0).run.run ctx).1
  let high := ((r.total (.ofKind .maximum) 0).run.run ctx).1
  (∃ x y, low = .ok x ∧ high = .ok y) ∨ low = .error .tooManyRolls ∧ high = .error .tooManyRolls

theorem Rollable.not_endsAlike_of_fails {c : RollError}
    (h : ((r.total .normal 0).run.run ctx).1 = .error c) (hc : c ≠ .tooManyRolls) :
    ¬r.EndsAlike ctx := by
  rintro (⟨x, y, hlow, -⟩ | ⟨hlow, -⟩)
  · cases h.symm.trans hlow
  · exact hc (Except.error.inj (h.symm.trans hlow))

/-- A text that is not read as a formula has no total. -/
theorem Rollable.total_of_unread {cs : List Char} {c : ParseError}
    (h : Formula.ofText cs = .error c) (mode : Mode) :
    (((text cs).total mode 0).run.run ctx).1 = .error (.parse c) := by
  have htext : ∀ x, text cs ≠ number x := nofun
  have hread : (text cs).toFormula = .error (.parse c) := by
    rw [toFormula, h]
    rfl
  rw [run_total htext, hread]

/-- One die, rolled with a list of faces. -/
def Expr.dieOf (f : Faces) : Expr := binary none (.dice .plain) (int 1) (literal none (.faces f))

/-- A list of more faces than a die can have is refused once the die is counted. -/
theorem Expr.outcome_dieOf {f : Faces} (hf : ¬(Die.faces f).IsNumberable)
    (hcount : (ctx.charge 1).isExhausted = false) :
    ((dieOf f).outcome ctx).1 = .error (.tooManyFaces f.length) := by
  have hsides := Die.rolledSides_of_not_isNumberable hf
  have hthrow : (RollM.rollDice 1 (.faces f)).run.run ctx =
      (.error (.tooManyFaces f.length), ctx.charge 1) := by
    rw [RollM.rollDice, RollM.run_bind, RollM.run_count, hcount, hsides]
    rfl
  rw [dieOf, outcome_dice (by decide) (Operator.dieOperand_faces _ _ f)]
  change ((RollM.rollDice 1 (.faces f)).run.run ctx).1.map Value.roll = _
  rw [hthrow]
  rfl

theorem Rollable.total_dieOf {f : Faces} (hf : ¬(Die.faces f).IsNumberable)
    (hcount : (ctx.reset.charge 1).isExhausted = false) :
    (((formula ⟨some (.dieOf f)⟩).total .normal 0).run.run ctx).1 =
      .error (.tooManyFaces f.length) := by
  have houtcome := Expr.outcome_dieOf hf hcount
  have hformula : ∀ x, formula ⟨some (.dieOf f)⟩ ≠ number x := nofun
  rw [run_total hformula]
  change (((Expr.dieOf f).outcome ctx.reset).1.map fun v => v.collapse + .int 0) = _
  rw [houtcome]
  rfl

/-- The sum of a one and some more ones, from left to right. -/
def Expr.ones : Nat → Expr
  | 0 => int 1
  | n + 1 => binary none (.arithmetic .plus) (ones n) (int 1)

namespace Expr

theorem isSumOfRolls_ones (n : Nat) : (ones n).IsSumOfRolls := by
  induction n with
  | zero => exact .literal (by decide)
  | succ n ih => exact .add ih (.literal (by decide))

theorem depth_ones (n : Nat) : (ones n).depth = n + 1 := by
  induction n with
  | zero => rfl
  | succ n ih =>
    rw [ones, depth, ih]
    exact congrArg (· + 1) (Nat.max_eq_left (Nat.le_add_left 1 n))

theorem isPlain_ones (n : Nat) : ∀ l ∈ (ones n).literals, l.isPlain = true := by
  induction n with
  | zero => decide
  | succ n ih => exact List.forall_mem_append.mpr ⟨ih, by decide⟩

theorem text_ones (n : Nat) :
    (ones n).text.toList = '1' :: (List.replicate n ['+', '1']).flatten := by
  induction n with
  | zero => rfl
  | succ n ih =>
    have hbare : (ones n).textBeside (.binary (.arithmetic .plus)) .left =
        (ones n).text.toList := by
      cases n <;> rfl
    rw [ones, toList_text_binary, hbare, ih, List.replicate_succ', List.flatten_append]
    rfl

end Expr

/-- A die with more faces than can be numbered is refused if it is rolled, and a text with more
levels than can be read is refused whatever the mode. -/
theorem modes_part_at_limits :
    let ctx := Context.start (some 1) (⟨[], .constant 1⟩ : Script)
    let list : Faces := ⟨.int 1 :: List.replicate 4294967295 (.int 1), List.cons_ne_nil _ _⟩
    let sum := '1' :: (List.replicate 256 ['+', '1']).flatten
    Roller.IsFair Script ∧
      (Expr.dieOf list).IsSumOfRolls ∧ ¬(Rollable.formula ⟨some (.dieOf list)⟩).EndsAlike ctx ∧
      (Expr.ones 256).IsSumOfRolls ∧ (Expr.ones 256).text.toList = sum ∧
      ¬(Rollable.text sum).EndsAlike ctx := by
  intro ctx list sum
  have hinteger : list.isInteger = true := by
    refine List.all_eq_true.mpr fun x hx => ?_
    rcases List.mem_cons.mp hx with rfl | hx
    · rfl
    · rw [List.eq_of_mem_replicate hx]
      rfl
  have hlength : list.length = 4294967296 := by
    rw [Faces.length, List.length_cons, List.length_replicate]
  have hlarge : ¬(Die.faces list).IsNumberable := by
    rw [Die.IsNumberable, hlength]
    exact Nat.lt_irrefl _
  have hdeep : maxDepth < (Expr.ones 256).depth := by
    rw [Expr.depth_ones]
    exact Nat.lt_add_one _
  have htext := Expr.text_ones 256
  obtain ⟨i, hread⟩ := (Formula.reads_text (Expr.isPlain_ones 256)).2 hdeep
  rw [htext] at hread
  refine ⟨Roller.isFair_script, .rolls (.faces (by decide) hinteger),
    Rollable.not_endsAlike_of_fails (Rollable.total_dieOf hlarge rfl) ?faces,
    Expr.isSumOfRolls_ones 256, htext,
    Rollable.not_endsAlike_of_fails (Rollable.total_of_unread hread .normal) ?levels⟩
  case faces | levels =>
    intro hc
    cases hc

end Apart

end DiceNotation
