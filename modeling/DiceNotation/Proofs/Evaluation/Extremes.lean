import DiceNotation.Proofs.Memory.Interrupted
import DiceNotation.Proofs.Memory.Reachable
import DiceNotation.Proofs.Operator.Ordered

/-!
# Keeping keeps the extremes

The operators `h` and `l` keep values by position. These are the highest or lowest ones because a
roll of integers is in ascending order whenever an operator sees it.

* `Roll.IsAscending.keepsHighest`, `Roll.IsAscending.keepsLowest`: keeping by position.
* `Expr.Settled.isOrdered`: all values are ordered that a settled tree remembers.
* `Formula.extremes_of_evaluate`: what the operators `h` and `l` keep, anywhere in a formula.
-/

namespace DiceNotation

/-! ## Keeping -/

namespace Roll

/-- Keeping `n` values of a roll, or all if there are not more, discards others that come before
all kept values in the given order. -/
structure KeepsExtremes (before : Number → Number → Bool) (r after : Roll) (n : Nat)
    (new : List Number) : Prop where
  length_eq : after.length = min n r.length
  discards_eq : after.discards = r.discards ++ new
  perm : (after.rolls ++ new).Perm r.rolls
  extreme : ∀ x ∈ new, ∀ y ∈ after.rolls, before x y = true

variable {r : Roll}

theorem IsAscending.keepsHighest (h : r.IsAscending) (n : Nat) :
    r.KeepsExtremes Number.le (r.keepHigh n) n (r.rolls.take (r.length - n)) where
  length_eq := by
    rw [length, Roll.keepHigh, List.length_drop, length]
    omega
  discards_eq := rfl
  perm := by
    have hsplit := List.take_append_drop (r.length - n) r.rolls
    exact List.perm_append_comm.trans (.of_eq hsplit)
  extreme := by
    have hsplit := h.ascending
    rw [← List.take_append_drop (r.length - n) r.rolls, List.pairwise_append] at hsplit
    exact hsplit.2.2

theorem IsAscending.keepsLowest (h : r.IsAscending) (n : Nat) :
    r.KeepsExtremes (fun x y => y.le x) (r.keepLow n) n (r.rolls.drop n) where
  length_eq := List.length_take
  discards_eq := rfl
  perm := .of_eq (List.take_append_drop n r.rolls)
  extreme := by
    have hsplit := h.ascending
    rw [← List.take_append_drop n r.rolls, List.pairwise_append] at hsplit
    exact fun x hx y hy => hsplit.2.2 y hy x hx

end Roll

/-! ## Trees -/

namespace Expr

open RollM

/-- Whether the root of a tree brings no fractions into rolls: as a list of faces, by throwing dice
at their mean, or by the bound that it puts in the place of values. -/
structure IsWhole (e : Expr) : Prop where
  faces : ∀ m f, e = literal m (.faces f) → f.isInteger = true
  not_average : e.op? ≠ some (.binary (.dice .average))
  bound : ∀ m c x y, e = binary m (.modifier c) x y → c = .floor ∨ c = .ceiling →
    ∀ v, y.memory = some v → v.collapse.IsInteger

/-- All values that a settled tree remembers are ordered if no fractions come into rolls. -/
theorem Settled.isOrdered {e : Expr} (h : e.Settled) (hwhole : e.Everywhere IsWhole) {v : Value}
    (hv : e.memory = some v) : v.IsOrdered := by
  induction e generalizing v with
  | literal m l =>
    obtain rfl := (h.root v hv).2
    cases l with
    | int n => exact .number _
    | faces f => exact .faces (hwhole.root.faces m f rfl)
  | sign m s x ih =>
    obtain ⟨ρ, _, ctx, hrun⟩ := (h.root v hv).2
    have hx {w : Value} (hw : x.memory = some w) : w.IsOrdered :=
      ih (everywhere_sign.mp h).2 (everywhere_sign.mp hwhole).2 hw
    have hensures : Ensures ((Operator.sign s).apply none x.memory : RollM ρ Value)
        Value.IsOrdered := Operator.ensures_apply nofun nofun (fun _ => hx) nofun
    exact hensures ctx v hrun
  | factorial m x ih =>
    obtain ⟨ρ, _, ctx, hrun⟩ := (h.root v hv).2
    have hx {w : Value} (hw : x.memory = some w) : w.IsOrdered :=
      ih (everywhere_factorial.mp h).2 (everywhere_factorial.mp hwhole).2 hw
    have hensures : Ensures (Operator.factorial.apply x.memory none : RollM ρ Value)
        Value.IsOrdered := Operator.ensures_apply nofun (fun _ => hx) nofun nofun
    exact hensures ctx v hrun
  | binary m b x y ihx ihy =>
    obtain ⟨ρ, _, ctx, hrun⟩ := (h.root v hv).2
    obtain ⟨-, hsx, hsy⟩ := everywhere_binary.mp h
    obtain ⟨hroot, hx, hy⟩ := everywhere_binary.mp hwhole
    refine Operator.ensures_apply (fun hop => hroot.not_average (congrArg some hop))
      (fun w hw => ihx hsx hx hw) (fun w hw => ihy hsy hy hw) ?_ ctx v hrun
    rintro c ⟨⟩
    exact hroot.bound m c x y rfl

/-- A node with operands `x` and `y` remembers what keeping values of the roll on its left makes of
it, as many as the number on its right says, and what it discards anew comes before all of them in
the given order. -/
def KeepsExtremes (before : Number → Number → Bool) (m : Option Value) (x y : Expr) : Prop :=
  ∃ r w n after new, x.memory = some (.roll r) ∧ y.memory = some w ∧ w.collapse = .int n ∧
    0 ≤ n.toInt ∧ m = some (.roll after) ∧ r.KeepsExtremes before after n.toInt.toNat new

theorem keepsExtremes_of_settled {m : Option Value} {c : Modifier} {x y : Expr}
    {before : Number → Number → Bool} {keep : Roll → Nat → Roll}
    (hc : c.KeepsBy keep)
    (hkeep : ∀ {r : Roll}, r.IsAscending → ∀ n, ∃ new, r.KeepsExtremes before (keep r n) n new)
    (h : (binary m (.modifier c) x y).Settled) (hm : m.isSome)
    (hwhole : (binary m (.modifier c) x y).Everywhere IsWhole) : KeepsExtremes before m x y := by
  obtain ⟨v, rfl⟩ := Option.isSome_iff_exists.mp hm
  obtain ⟨ρ, _, ctx, hrun⟩ := (h.root v rfl).2
  have hensures : Ensures ((Operator.binary (.modifier c)).apply x.memory y.memory : RollM ρ Value)
      fun v => ∃ r w n, x.memory = some (.roll r) ∧ y.memory = some w ∧ w.collapse = .int n ∧
        0 ≤ n.toInt ∧ v = .roll (keep r n.toInt.toNat) := by
    refine .bind (Modifier.ensures_keep hc) ?_
    rintro _ ⟨r, w, n, hr, hw, hcount, hpos, rfl⟩
    exact ensures_pure ⟨r, w, n, hr, hw, hcount, hpos, rfl⟩
  obtain ⟨r, w, n, hr, hw, hcount, hpos, rfl⟩ := hensures ctx v hrun
  cases Settled.isOrdered (everywhere_binary.mp h).2.1 (everywhere_binary.mp hwhole).2.1 hr with
  | roll hascending _ =>
    obtain ⟨new, hnew⟩ := hkeep hascending n.toInt.toNat
    exact ⟨r, w, n, _, new, hr, hw, hcount, hpos, rfl, hnew⟩

/-- A tree brings fractions into rolls through what it is made of, or through what the operands of
`f` and `c` have come to. -/
theorem everywhere_isWhole {e e' : Expr} (h : e'.clear = e.clear)
    (haverage : ∀ x ∈ e.subtrees, x.op? ≠ some (.binary (.dice .average)))
    (hfaces : ∀ m f, literal m (.faces f) ∈ e.subtrees → f.isInteger = true)
    (hbounds : ∀ m c x y, binary m (.modifier c) x y ∈ e'.subtrees → c = .floor ∨ c = .ceiling →
      ∀ v, y.memory = some v → v.collapse.IsInteger) : e'.Everywhere IsWhole := by
  intro x hx
  obtain ⟨y, hy, hclear⟩ := exists_mem_subtrees_of_clear_eq h hx
  constructor
  case faces =>
    rintro m f rfl
    obtain ⟨m', rfl⟩ := eq_literal_of_clear hclear.symm
    exact hfaces m' f hy
  case not_average =>
    rw [← op?_clear, hclear, op?_clear]
    exact haverage y hy
  case bound =>
    rintro m c z w rfl
    exact hbounds m c z w hx

end Expr

/-! ## Formulas -/

namespace Formula

variable {ρ : Type} [Roller ρ]

/-- After an evaluation that succeeds, all rolls that are remembered are in ascending order, and
wherever `h` or `l` stands, it has kept the highest or lowest values of the roll on its left. No
dice are to be thrown at their mean, and lists of faces and the bounds of `f` and `c` are to be
integers. -/
theorem extremes_of_evaluate {f f' : Formula} {e e' : Expr} {total : Number}
    {ctx last : Context ρ} (hf : Reachable f) (he : f.root = some e)
    (haverage : ∀ x ∈ e.subtrees, x.op? ≠ some (.binary (.dice .average)))
    (hfaces : ∀ m l, .literal m (.faces l) ∈ e.subtrees → l.isInteger = true)
    (hrun : f.evaluate.run ctx = ((.ok total, f'), last)) (he' : f'.root = some e')
    (hbounds : ∀ m c x y, .binary m (.modifier c) x y ∈ e'.subtrees → c = .floor ∨ c = .ceiling →
      ∀ v, y.memory = some v → v.collapse.IsInteger) :
    (∀ x ∈ e'.subtrees, ∀ r, x.memory = some (.roll r) → r.IsAscending) ∧
      (∀ m x y, .binary m (.modifier .keepHigh) x y ∈ e'.subtrees →
        Expr.KeepsExtremes Number.le m x y) ∧
      ∀ m x y, .binary m (.modifier .keepLow) x y ∈ e'.subtrees →
        Expr.KeepsExtremes (fun x y => y.le x) m x y := by
  rcases f.evaluate_cases ctx with ⟨hroot, -⟩ | ⟨root, result, root', last', hroot, heval, hcase⟩
  · rw [hroot] at he
    cases he
  obtain rfl : root = e := Option.some.inj (hroot.symm.trans he)
  rw [hcase] at hrun
  cases result with
  | error c => cases hrun
  | ok v =>
    cases hrun
    obtain rfl : root' = e' := Option.some.inj he'
    have hsettled : root'.Settled := heval.settled (hf.settled root hroot)
    have hmemory : root'.memory.isSome := by
      rw [heval.memory_eq]
      rfl
    have hevaluated := hsettled.isSome_memory hmemory
    have hwhole : root'.Everywhere Expr.IsWhole :=
      Expr.everywhere_isWhole heval.clear_eq haverage hfaces hbounds
    refine ⟨fun x hx r hr => ?_, fun m x y hx => ?_, fun m x y hx => ?_⟩
    · cases Expr.Settled.isOrdered (hsettled.subtree hx) (hwhole.subtree hx) hr with
      | roll hascending _ => exact hascending
    · exact Expr.keepsExtremes_of_settled Modifier.keepsBy_keepHigh
        (fun h n => ⟨_, h.keepsHighest n⟩) (hsettled.subtree hx) (hevaluated _ hx) (hwhole.subtree hx)
    · exact Expr.keepsExtremes_of_settled Modifier.keepsBy_keepLow
        (fun h n => ⟨_, h.keepsLowest n⟩) (hsettled.subtree hx) (hevaluated _ hx) (hwhole.subtree hx)

/-- In `3d6f2h2` the one among the dice is raised to a two, and the five and the four are kept. -/
theorem extremes_of_evaluate_raised_dice :
    let whole : Formula := ⟨some (.binary none (.modifier .keepHigh)
      (.binary none (.modifier .floor)
        (.binary none (.dice .plain) (.int 3) (.int 6)) (.int 2)) (.int 2))⟩
    let run := whole.evaluate.run (Context.start (some 10) (⟨[5, 1, 4], .constant 1⟩ : Script))
    let thrown := Roll.of [.int 5, .int 1, .int 4] (.sides ⟨6, by decide, by decide⟩)
    let raised := thrown.floor (.int 2)
    run.1.1 = .ok (raised.keepHigh 2).sum ∧ thrown.IsAscending ∧ raised.IsAscending ∧
      ∃ m x y, run.1.2.root = some (.binary m (.modifier .keepHigh) x y) ∧
        x.memory = some (.roll raised) ∧ Expr.KeepsExtremes Number.le m x y := by
  intro whole run thrown raised
  let lit (n : Int64) : Expr := .literal (some (.number (.int n))) (.int n)
  let dice : Expr := .binary (some (.roll thrown)) (.dice .plain) (lit 3) (lit 6)
  let atLeastTwo : Expr := .binary (some (.roll raised)) (.modifier .floor) dice (lit 2)
  let e' : Expr :=
    .binary (some (.roll (raised.keepHigh 2))) (.modifier .keepHigh) atLeastTwo (lit 2)
  have hread : ofTokens [.int 3, .op (.binary (.dice .plain)), .int 6,
      .op (.binary (.modifier .floor)), .int 2, .op (.binary (.modifier .keepHigh)), .int 2] =
        .ok whole := rfl
  have hrun : run = ((.ok (raised.keepHigh 2).sum, ⟨some e'⟩), run.2) := rfl
  have hfaces : ∀ m l, Expr.literal m (.faces l) ∉ Expr.subtrees
      (.binary none (.modifier .keepHigh) (.binary none (.modifier .floor)
        (.binary none (.dice .plain) (.int 3) (.int 6)) (.int 2)) (.int 2)) := by
    simp [Expr.subtrees, Expr.int]
  have hbounds : ∀ m c x y, .binary m (.modifier c) x y ∈ e'.subtrees →
      c = .floor ∨ c = .ceiling → ∀ v, y.memory = some v → v.collapse.IsInteger := by
    intro m c x y hx _ v hv
    have hy : y = lit 2 := by
      simp only [e', atLeastTwo, dice, lit, Expr.subtrees, List.cons_append, List.nil_append,
        List.mem_cons, List.not_mem_nil, Expr.binary.injEq, BinaryOperator.modifier.injEq,
        reduceCtorEq, false_and, and_false, or_self, or_false] at hx
      rcases hx with ⟨-, -, -, rfl⟩ | ⟨-, -, -, rfl⟩ <;> rfl
    subst hy
    cases hv
    exact ⟨2, rfl⟩
  obtain ⟨hrolls, hhigh, -⟩ := extremes_of_evaluate (Reachable.tokens hread) rfl (by decide)
    (fun m l hl => absurd hl (hfaces m l)) hrun rfl hbounds
  have hdice : dice ∈ e'.subtrees := by simp [e', atLeastTwo, dice, Expr.subtrees]
  have hraised : atLeastTwo ∈ e'.subtrees := by simp [e', atLeastTwo, Expr.subtrees]
  exact ⟨rfl, hrolls dice hdice thrown rfl, hrolls atLeastTwo hraised raised rfl, _, _, _, rfl, rfl,
    hhigh _ _ _ e'.mem_subtrees_self⟩

end Formula

end DiceNotation
