import DiceNotation.Proofs.Reader.Stacks

/-!
# Operands for every operator

An operator that takes its operands finds them: whether one is missing is decided by the place of a
token alone.

* `Asks`, `Balanced.supplies`: the operands that an operator is given.
* `LacksAt`, `LacksAtEnd`: where operands are missing.
* `pushAll_balanced`: after any tokens that were accepted the stacks are balanced, no reduction
  misses an operand, and one is reported missing just where it is.
-/

namespace DiceNotation

namespace Reader

/-! ## Taking operands -/

/-- The operands that an operator finds where the reader makes it take its own: one that waits,
after those above it, and one that follows its operand, after those that come before it. -/
def Asks (r : Reader) (o : Operator) (os : List Operand) : Prop :=
  (∃ i ps, Reduces r ⟨.op o i :: ps, os, false⟩) ∨
    r.expectsOperand = false ∧ o.arity = .after ∧
      ∃ ps, reduceBefore o r.pending r.operands = .ok (ps, os)

theorem Balanced.supplies {r : Reader} (h : r.Balanced) {o : Operator} {os : List Operand}
    (hasks : r.Asks o os) : o.isBinary.toNat + 1 ≤ os.length := by
  rcases hasks with ⟨i, ps, hreduces⟩ | ⟨hflag, harity, ps, hbefore⟩
  · have hlen : os.length = held (.op o i :: ps) + 1 := (h.reduces hreduces).length_operands
    rw [hlen, held_op, Nat.add_assoc]
    exact Nat.le_add_left _ _
  · have hr := h.of_complete hflag
    have hbinary : o.isBinary = false := by
      cases o with
      | sign | factorial => rfl
      | binary => cases harity
    rcases reduceBefore_reduces o r.pending r.operands with
      ⟨ps', os', hok, hreduces⟩ | ⟨c, herror, -⟩
    · cases hok.symm.trans hbefore
      have hlen : os.length = held ps + 1 := (hr.reduces hreduces).length_operands
      rw [hlen, hbinary]
      exact Nat.le_add_left _ _
    · cases herror.symm.trans hbefore

/-! ## One token -/

/-- An operator lacks an operand by the place of a token: it has come where its own left operand
should be, or a parenthesis closes where its right operand should be. -/
def LacksAt (r : Reader) (i : Nat) (t : Token) (j : Nat) (o : Operator) : Prop :=
  r.expectsOperand = true ∧
    (t = .op o ∧ o.arity ≠ .before ∧ j = i ∨ t = .closed ∧ ∃ ps, r.pending = .op o j :: ps)

/-- A token is read, or refused for a missing operand just if an operator lacks one. -/
def Ends (lacks : Nat → Operator → Prop) : Except ParseError Reader → Prop
  | .ok r => r.Balanced ∧ ∀ j o, ¬lacks j o
  | .error c => ∀ j o, c = .missingOperand j o ↔ lacks j o

section

variable {r : Reader} {lacks : Nat → Operator → Prop}

theorem ends_of_ne_missing (hlacks : ∀ j o, ¬lacks j o) {c : ParseError}
    (hc : ∀ j o, c ≠ .missingOperand j o) : Ends lacks (.error c) :=
  fun j o => iff_of_false (hc j o) (hlacks j o)

theorem Balanced.ends_of_fails (h : r.Balanced) (hlacks : ∀ j o, ¬lacks j o) {c : ParseError}
    (hfails : r.FailsWith c) : Ends lacks (.error c) := by
  obtain ⟨o, i, -, rfl⟩ := h.deepensAt_of_fails hfails
  exact ends_of_ne_missing hlacks nofun

theorem not_lacksAt_of_complete (hflag : r.expectsOperand = false) (i : Nat) (t : Token) (j : Nat)
    (o : Operator) : ¬r.LacksAt i t j o := by
  intro h
  cases hflag.symm.trans h.1

theorem not_lacksAt_of_starts (t : Token) (hop : ∀ o, t ≠ .op o) (hclosed : t ≠ .closed)
    (i j : Nat) (o : Operator) : ¬r.LacksAt i t j o := by
  rintro ⟨-, ⟨ht, -⟩ | ⟨ht, -⟩⟩
  · exact hop o ht
  · exact hclosed ht

theorem Balanced.ends_literal (h : r.Balanced) (l : Literal) (i : Nat) (t : Token)
    (hlacks : ∀ j o, ¬lacks j o) :
    Ends lacks
      (if r.expectsOperand then .ok (r.pushLiteral l) else .error (.unexpectedToken i t)) := by
  cases hflag : r.expectsOperand with
  | false => exact ends_of_ne_missing hlacks nofun
  | true =>
    refine ⟨⟨congrArg (· + 1) (h.length_of_expecting hflag), ?_⟩, hlacks⟩
    exact List.forall_mem_cons.mpr ⟨⟨rfl, Nat.succ_pos _, rfl⟩, h.sound⟩

theorem Balanced.ends_opened (h : r.Balanced) (i : Nat) (hlacks : ∀ j o, ¬lacks j o) :
    Ends lacks (r.push i .opened) := by
  rw [push]
  cases hflag : r.expectsOperand with
  | false => exact ends_of_ne_missing hlacks nofun
  | true => exact ⟨⟨h.length_of_expecting hflag, h.sound⟩, hlacks⟩

theorem Balanced.ends_closed (h : r.Balanced) (i : Nat) :
    Ends (r.LacksAt i .closed) (r.push i .closed) := by
  rw [push, closeGroup]
  cases hflag : r.expectsOperand with
  | true =>
    rw [if_pos rfl]
    -- nothing is reduced here, so only the top of the stack decides
    have hlacks (j : Nat) (o : Operator) :
        r.LacksAt i .closed j o ↔ ∃ ps, r.pending = .op o j :: ps := by
      simp [LacksAt, hflag]
    cases hps : r.pending with
    | nil => exact ends_of_ne_missing (by simp [hlacks, hps]) nofun
    | cons p ps =>
      cases p with
      | group k => exact ends_of_ne_missing (by simp [hlacks, hps]) nofun
      | op o k =>
        intro j o'
        rw [hlacks, hps]
        simp [and_comm]
  | false =>
    have hlacks := not_lacksAt_of_complete hflag i .closed
    have hr := h.of_complete hflag
    rw [if_neg Bool.false_ne_true]
    rcases reduceGroup_reduces i r.pending r.operands with
      ⟨k, ps, os, hok, hreduces⟩ | ⟨hnone, -⟩ | ⟨c, herror, hfails⟩
    · rw [hok]
      have hnext := hr.reduces hreduces
      exact ⟨⟨hflag ▸ hnext.length_operands, hnext.sound⟩, hlacks⟩
    · rw [hnone]
      exact ends_of_ne_missing hlacks nofun
    · rw [herror]
      exact hr.ends_of_fails hlacks hfails

theorem Balanced.ends_operator (h : r.Balanced) (i : Nat) (o : Operator) :
    Ends (r.LacksAt i (.op o)) (r.push i (.op o)) := by
  rw [push]
  cases hflag : r.expectsOperand with
  | true =>
    have hlacks (j : Nat) (o' : Operator) :
        r.LacksAt i (.op o) j o' ↔ i = j ∧ o = o' ∧ o.arity ≠ .before := by
      simp only [LacksAt, hflag, true_and, reduceCtorEq, false_and, or_false, Token.op.injEq]
      constructor
      · rintro ⟨rfl, harity, rfl⟩
        exact ⟨rfl, rfl, harity⟩
      · rintro ⟨rfl, rfl, harity⟩
        exact ⟨rfl, harity, rfl⟩
    cases o with
    | sign s =>
      rw [pushOperator, hflag]
      refine ⟨⟨h.length_of_expecting hflag, h.sound⟩, fun j o' hlack => ?_⟩
      exact ((hlacks j o').mp hlack).2.2 rfl
    | factorial | binary b =>
      rw [pushOperator, hflag]
      intro j o'
      rw [hlacks, ParseError.missingOperand.injEq]
      exact and_congr_right fun _ => (and_iff_left nofun).symm
  | false =>
    have hlacks := not_lacksAt_of_complete hflag i (.op o)
    have hr := h.of_complete hflag
    cases o with
    | sign s =>
      rw [pushOperator, hflag]
      exact ends_of_ne_missing hlacks nofun
    | factorial =>
      rw [pushOperator, hflag]
      rcases reduceBefore_reduces .factorial r.pending r.operands with
        ⟨ps, os, hok, hreduces⟩ | ⟨c, herror, hfails⟩
      · rw [hok]
        dsimp only [Operator.arity]
        rcases (hr.reduces hreduces).reduce_factorial i with ⟨os', hown, hnext⟩ | hdeep
        · rw [hown]
          exact ⟨⟨hflag ▸ hnext.length_operands, hnext.sound⟩, hlacks⟩
        · rw [hdeep]
          exact ends_of_ne_missing hlacks nofun
      · rw [herror]
        exact hr.ends_of_fails hlacks hfails
    | binary b =>
      rw [pushOperator, hflag]
      rcases reduceBefore_reduces (.binary b) r.pending r.operands with
        ⟨ps, os, hok, hreduces⟩ | ⟨c, herror, hfails⟩
      · rw [hok]
        have hnext := hr.reduces hreduces
        exact ⟨⟨(held_op (.binary b) i ps).symm ▸ hnext.length_operands, hnext.sound⟩, hlacks⟩
      · rw [herror]
        exact hr.ends_of_fails hlacks hfails

/-- A token keeps the stacks balanced, or it is refused; for a missing operand only if an operator
lacks one by the place of the token. -/
theorem Balanced.ends (h : r.Balanced) (i : Nat) (t : Token) :
    Ends (r.LacksAt i t) (r.push i t) := by
  cases t with
  | int n => exact h.ends_literal (.int n) i _ (not_lacksAt_of_starts (.int n) nofun nofun i)
  | faces f => exact h.ends_literal (.faces f) i _ (not_lacksAt_of_starts (.faces f) nofun nofun i)
  | op o => exact h.ends_operator i o
  | opened => exact h.ends_opened i (not_lacksAt_of_starts .opened nofun nofun i)
  | closed => exact h.ends_closed i

theorem Balanced.push {r' : Reader} (h : r.Balanced) {i : Nat} {t : Token}
    (hok : r.push i t = .ok r') : r'.Balanced := by
  have hends := h.ends i t
  rw [hok] at hends
  exact hends.1

theorem Balanced.push_eq_missing_iff (h : r.Balanced) (i : Nat) (t : Token) (j : Nat)
    (o : Operator) : r.push i t = .error (.missingOperand j o) ↔ r.LacksAt i t j o := by
  have hends := h.ends i t
  cases hresult : r.push i t with
  | error c =>
    rw [hresult] at hends
    rw [Except.error.injEq]
    exact hends j o
  | ok r' =>
    rw [hresult] at hends
    exact iff_of_false nofun (hends.2 j o)

/-! ## All tokens -/

theorem Balanced.pushAll {r' : Reader} (h : r.Balanced) {i : Nat} {ts : List Token}
    (hok : r.pushAll i ts = .ok r') : r'.Balanced := by
  induction ts generalizing r i with
  | nil =>
    cases hok
    exact h
  | cons t ts ih =>
    rw [Reader.pushAll] at hok
    cases hpush : r.push i t with
    | error c =>
      rw [hpush] at hok
      cases hok
    | ok r₁ =>
      rw [hpush] at hok
      exact ih (h.push hpush) hok

/-- An operator lacks its right operand at the end. -/
def LacksAtEnd (r : Reader) (j : Nat) (o : Operator) : Prop :=
  r.expectsOperand = true ∧ ∃ ps, r.pending = .op o j :: ps

/-- At the end one tree is left, or none if there was no token, or an error says why not. -/
theorem Balanced.finish_cases (h : r.Balanced) :
    (∃ found, r.finish = .ok found ∧ ∀ j o, ¬r.LacksAtEnd j o) ∨
    ∃ c, r.finish = .error c ∧ (∀ k, c ≠ .danglingOperands k) ∧
      ∀ j o, c = .missingOperand j o ↔ r.LacksAtEnd j o := by
  unfold finish
  cases hflag : r.expectsOperand with
  | true =>
    have hlacks (j : Nat) (o : Operator) : r.LacksAtEnd j o ↔ ∃ ps, r.pending = .op o j :: ps := by
      rw [LacksAtEnd, hflag, eq_self, true_and]
    cases hps : r.pending with
    | nil =>
      have hos := h.length_of_expecting hflag
      rw [hps] at hos
      rw [List.eq_nil_of_length_eq_zero hos]
      exact .inl ⟨none, rfl, by simp [hlacks, hps]⟩
    | cons p ps =>
      cases p with
      | group k => exact .inr ⟨_, rfl, nofun, fun j o => iff_of_false nofun (by simp [hlacks, hps])⟩
      | op o k =>
        refine .inr ⟨_, rfl, nofun, fun j o' => ?_⟩
        rw [hlacks, hps]
        simp [and_comm]
  | false =>
    have hlacks (j : Nat) (o : Operator) : ¬r.LacksAtEnd j o := by
      intro hlack
      cases hflag.symm.trans hlack.1
    have hr := h.of_complete hflag
    dsimp only
    rcases reduceAll_reduces r.pending r.operands with
      ⟨os, hok, hreduces⟩ | ⟨k, ks, herror, -⟩ | ⟨c, herror, hfails⟩
    · obtain ⟨x, rfl⟩ := List.length_eq_one_iff.mp (hr.reduces hreduces).length_operands
      rw [hok]
      exact .inl ⟨some x.expr, rfl, hlacks⟩
    · rw [herror]
      exact .inr ⟨_, rfl, nofun, fun j o => iff_of_false nofun (hlacks j o)⟩
    · obtain ⟨o, k, -, rfl⟩ := hr.deepensAt_of_fails hfails
      rw [herror]
      exact .inr ⟨_, rfl, nofun, fun j o => iff_of_false nofun (hlacks j o)⟩

/-- After any tokens that were accepted the stacks are balanced, and every operator that takes its
operands finds them. An operand is missing by the place of a token or of the end alone, and no
operands are left over. -/
theorem pushAll_balanced {ts : List Token} {n : Nat} (h : start.pushAll n ts = .ok r) :
    r.Balanced ∧ (∀ o os, r.Asks o os → o.isBinary.toNat + 1 ≤ os.length) ∧
    (∀ i t j o, r.push i t = .error (.missingOperand j o) ↔ r.LacksAt i t j o) ∧
    (∀ j o, r.finish = .error (.missingOperand j o) ↔ r.LacksAtEnd j o) ∧
    ∀ k, r.finish ≠ .error (.danglingOperands k) := by
  have hr : r.Balanced := balanced_start.pushAll h
  refine ⟨hr, fun o os => hr.supplies, hr.push_eq_missing_iff, fun j o => ?_, fun k hk => ?_⟩
  · rcases hr.finish_cases with ⟨found, hok, hlacks⟩ | ⟨c, herror, -, hmissing⟩
    · rw [hok]
      exact iff_of_false nofun (hlacks j o)
    · rw [herror, Except.error.injEq]
      exact hmissing j o
  · rcases hr.finish_cases with ⟨found, hok, -⟩ | ⟨c, herror, hdangling, -⟩
    · cases hok.symm.trans hk
    · exact hdangling k (Except.error.inj (herror.symm.trans hk))

/-- After `(1+2*` two operators wait with two operands, and the last one lacks its right one. -/
theorem pushAll_balanced_product :
    ∃ r, start.pushAll 0 [.opened, .int 1, .op (.binary (.arithmetic .plus)), .int 2,
        .op (.binary (.arithmetic .times))] = .ok r ∧
      held r.pending = 2 ∧ r.operands.length = 2 ∧
      r.finish = .error (.missingOperand 4 (.binary (.arithmetic .times))) := by
  refine ⟨_, rfl, rfl, rfl, ?_⟩
  have hok : start.pushAll 0 [.opened, .int 1, .op (.binary (.arithmetic .plus)), .int 2,
    .op (.binary (.arithmetic .times))] = .ok _ := rfl
  obtain ⟨-, -, -, hfinish, -⟩ := pushAll_balanced hok
  exact (hfinish 4 _).mpr ⟨rfl, _, rfl⟩

end

end Reader

end DiceNotation
