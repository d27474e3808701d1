import DiceNotation.Proofs.Reader.Supply

/-!
# What a refusal points at

Tokens are refused at one of them, and the error says what is wrong with that one: an operator has
no operand where one should be, a parenthesis has no partner, or an operator nests too deep. The
tokens that have not been read yet make no difference to that.

* `ParseError.PointsAt`: what an error says about the token with its index.
* `push_advances`: one token is read or refused.
* `ofTokens_error_points`: a sequence of tokens is refused with such an error.
-/

namespace DiceNotation

/-- What an error says about the token that it names. The errors that name no token say nothing
about a sequence of tokens, so they never point at anything. -/
def ParseError.PointsAt (ts : List Token) : ParseError → Prop
  | unexpectedToken i found => ts[i]? = some found
  | missingOperand i op => ts[i]? = some (.op op) ∧
    (op.arity ≠ .before ∧ Token.isSignPosition (ts.take i).getLast? = true ∨
      op.arity ≠ .after ∧ (ts[i + 1]? = some .closed ∨ i + 1 = ts.length))
  | tooDeep i => ∃ o, ts[i]? = some (.op o)
  | emptyGroup i => ∃ j, i = j + 1 ∧ ts[j]? = some .opened ∧ ts[i]? = some .closed
  | unmatchedClose i => UnmatchedClose ts i ∧ ∀ j < i, ¬UnmatchedClose ts j
  | unclosedParen i => UnmatchedOpen ts i ∧ ∀ j, i < j → ¬UnmatchedOpen ts j
  | _ => False

theorem ParseError.PointsAt.exists_index {ts : List Token} {c : ParseError} (h : c.PointsAt ts) :
    ∃ i, c.index? = some i ∧ i < ts.length := by
  have within {i : Nat} {t : Token} (hi : ts[i]? = some t) : i < ts.length :=
    (List.getElem?_eq_some_iff.mp hi).1
  cases c with
  | unexpectedToken i found => exact ⟨i, rfl, within h⟩
  | missingOperand i op => exact ⟨i, rfl, within h.1⟩
  | tooDeep i =>
    obtain ⟨o, ho⟩ := h
    exact ⟨i, rfl, within ho⟩
  | emptyGroup i =>
    obtain ⟨j, -, -, hclosed⟩ := h
    exact ⟨i, rfl, within hclosed⟩
  | unmatchedClose i => exact ⟨i, rfl, within h.1.1⟩
  | unclosedParen i => exact ⟨i, rfl, within h.1.1⟩
  | unrecognized | invalidFaces | unclosedFaces | misplacedFudge | danglingOperands => cases h

namespace Reader

variable {ts : List Token} {r : Reader}

/-! ## The latest token -/

theorem Tracks.pointsAt_of_fails (h : Tracks ts r) (hr : Balanced ⟨r.pending, r.operands, false⟩)
    {c : ParseError} (hfails : FailsWith ⟨r.pending, r.operands, false⟩ c) (us : List Token) :
    c.PointsAt (ts ++ us) := by
  obtain ⟨o, i, hi, rfl⟩ := hr.deepensAt_of_fails hfails
  exact ⟨o, h.token_at_append hi us⟩

theorem Tracks.latest_of_waiting (h : Tracks ts r) {p : Pending} {ps : List Pending}
    (hexpects : r.expectsOperand = true) (hps : r.pending = p :: ps) :
    ∃ us, ts = us ++ [p.token] ∧ p.index = us.length := by
  rcases h.latest hexpects with ⟨hnil, -⟩ | ⟨q, qs, us, hqs, hus, hlen⟩
  · rw [hnil] at hps
    cases hps
  · obtain ⟨rfl, -⟩ := List.cons.inj (hqs.symm.trans hps)
    exact ⟨us, hus, hlen⟩

/-- An operator on the top of the stack lacks its right operand if no operand can follow. -/
theorem Tracks.pointsAt_of_waiting (h : Tracks ts r) {o : Operator} {i : Nat} {ps : List Pending}
    (hexpects : r.expectsOperand = true) (hps : r.pending = .op o i :: ps) {us : List Token}
    (hus : us = [] ∨ ∃ rest, us = .closed :: rest) :
    (ParseError.missingOperand i o).PointsAt (ts ++ us) := by
  obtain ⟨vs, rfl, hlen⟩ := h.latest_of_waiting hexpects hps
  obtain rfl : i = vs.length := hlen
  have hflag := h.flag
  rw [hexpects, List.getLast?_concat] at hflag
  have harity : o.arity ≠ .after := bne_iff_ne.mp hflag.symm
  have hat : (vs ++ .op o :: us)[vs.length]? = some (.op o) := getElem?_append_cons vs us _
  rw [Pending.token, ← List.append_cons]
  refine ⟨hat, .inr ⟨harity, ?_⟩⟩
  rcases hus with rfl | ⟨rest, rfl⟩
  · exact .inr (by rw [List.length_append, List.length_singleton])
  · have hnext := getElem?_append_cons (vs ++ [.op o]) rest .closed
    rw [← List.append_cons, List.length_append] at hnext
    exact .inl hnext

/-! ## One token -/

/-- How a token ends after others: it is read, or it is refused whatever comes after it. -/
def Advances (ts : List Token) (t : Token) (result : Except ParseError Reader) : Prop :=
  (∃ r, result = .ok r ∧ Tracks (ts ++ [t]) r) ∨
    ∃ c, result = .error c ∧ ∀ rest, c.PointsAt (ts ++ t :: rest)

theorem pointsAt_unexpectedToken (ts : List Token) (t : Token) (rest : List Token) :
    (ParseError.unexpectedToken ts.length t).PointsAt (ts ++ t :: rest) :=
  getElem?_append_cons ts rest t

theorem Tracks.advances_literal (h : Tracks ts r) (l : Literal) {t : Token}
    (ht : t.isPayload = true) (hflag : Token.isSignPosition (some t) = false) :
    Advances ts t (if r.expectsOperand then .ok (r.pushLiteral l)
      else .error (.unexpectedToken ts.length t)) := by
  cases hexpects : r.expectsOperand with
  | true => exact .inl ⟨_, rfl, h.completes (List.suffix_refl _) (h.nests.plain ht) hflag⟩
  | false => exact .inr ⟨_, rfl, pointsAt_unexpectedToken ts t⟩

theorem Tracks.advances_opened (h : Tracks ts r) :
    Advances ts .opened (r.push ts.length .opened) := by
  rw [push]
  cases hexpects : r.expectsOperand with
  | true =>
    exact .inl ⟨_, rfl, h.waits (p := .group ts.length) rfl (List.suffix_refl _) h.nests.opens rfl⟩
  | false => exact .inr ⟨_, rfl, pointsAt_unexpectedToken ts .opened⟩

theorem Tracks.advances_closed (h : Tracks ts r) (hr : r.Balanced) :
    Advances ts .closed (r.push ts.length .closed) := by
  rw [push, closeGroup]
  cases hexpects : r.expectsOperand with
  | true =>
    rw [if_pos rfl]
    cases hps : r.pending with
    | nil =>
      have hnests := h.nests
      rw [hps] at hnests
      exact .inr ⟨_, rfl, hnests.firstUnmatched⟩
    | cons p ps =>
      cases p with
      | op o i =>
        exact .inr ⟨_, rfl, fun rest => h.pointsAt_of_waiting hexpects hps (.inr ⟨rest, rfl⟩)⟩
      | group i =>
        obtain ⟨us, rfl, -⟩ := h.latest_of_waiting hexpects hps
        refine .inr ⟨_, rfl, fun rest => ⟨us.length, ?_, ?_, ?_⟩⟩
        · rw [List.length_append, List.length_singleton]
        · rw [← List.append_cons]
          exact getElem?_append_cons us _ _
        · exact getElem?_append_cons _ rest _
  | false =>
    rw [if_neg Bool.false_ne_true]
    rcases reduceGroup_reduces ts.length r.pending r.operands with
      ⟨i, ps, os, hok, hreduces⟩ | ⟨herror, hnone⟩ | ⟨c, herror, hfails⟩
    · rw [hok]
      have hnests := h.nests
      rw [← hreduces.groups_eq] at hnests
      have hsuffix := (List.suffix_cons _ _).trans hreduces.suffix
      exact .inl ⟨_, rfl, h.completes hsuffix hnests.closes rfl⟩
    · rw [herror]
      have hnests := h.nests
      rw [hnone] at hnests
      exact .inr ⟨_, rfl, hnests.firstUnmatched⟩
    · rw [herror]
      exact .inr ⟨_, rfl, fun rest => h.pointsAt_of_fails (hr.of_complete hexpects) hfails _⟩

theorem Tracks.advances_operator (h : Tracks ts r) (hr : r.Balanced) (o : Operator) :
    Advances ts (.op o) (r.push ts.length (.op o)) := by
  rw [push]
  cases hexpects : r.expectsOperand with
  | true =>
    -- only a prefix operator can begin an operand
    have hmissing (harity : o.arity ≠ .before) (rest : List Token) :
        (ParseError.missingOperand ts.length o).PointsAt (ts ++ .op o :: rest) := by
      refine ⟨getElem?_append_cons ts rest _, .inl ⟨harity, ?_⟩⟩
      rw [List.take_left, ← h.flag, hexpects]
    cases o with
    | sign s =>
      rw [pushOperator, hexpects]
      exact .inl ⟨_, rfl, h.waits (p := .op (.sign s) ts.length) rfl (List.suffix_refl _)
        (h.nests.plain rfl) rfl⟩
    | factorial | binary b =>
      rw [pushOperator, hexpects]
      refine .inr ⟨_, rfl, hmissing ?_⟩
      intro harity
      cases harity
  | false =>
    have hr := hr.of_complete hexpects
    cases o with
    | sign s =>
      rw [pushOperator, hexpects]
      exact .inr ⟨_, rfl, pointsAt_unexpectedToken ts _⟩
    | factorial =>
      rw [pushOperator, hexpects]
      rcases reduceBefore_reduces .factorial r.pending r.operands with
        ⟨ps, os, hbefore, hreduces⟩ | ⟨c, herror, hfails⟩
      · rw [hbefore]
        dsimp only [Operator.arity]
        rcases (hr.reduces hreduces).reduce_factorial ts.length with ⟨os', hown, -⟩ | hdeep
        · rw [hown]
          have hnests := h.nests.plain (t := .op .factorial) rfl
          rw [← hreduces.groups_eq] at hnests
          exact .inl ⟨_, rfl, h.completes hreduces.suffix hnests rfl⟩
        · rw [hdeep]
          exact .inr ⟨_, rfl, fun rest => ⟨_, getElem?_append_cons ts rest _⟩⟩
      · rw [herror]
        exact .inr ⟨_, rfl, fun rest => h.pointsAt_of_fails hr hfails _⟩
    | binary b =>
      rw [pushOperator, hexpects]
      rcases reduceBefore_reduces (.binary b) r.pending r.operands with
        ⟨ps, os, hbefore, hreduces⟩ | ⟨c, herror, hfails⟩
      · rw [hbefore]
        have hnests := h.nests.plain (t := .op (.binary b)) rfl
        rw [← hreduces.groups_eq] at hnests
        exact .inl ⟨_, rfl, h.waits (p := .op (.binary b) ts.length) rfl hreduces.suffix hnests rfl⟩
      · rw [herror]
        exact .inr ⟨_, rfl, fun rest => h.pointsAt_of_fails hr hfails _⟩

theorem push_advances (h : Tracks ts r) (hr : r.Balanced) (t : Token) :
    Advances ts t (r.push ts.length t) := by
  cases t with
  | int n => exact h.advances_literal (.int n) rfl rfl
  | faces f => exact h.advances_literal (.faces f) rfl rfl
  | op o => exact h.advances_operator hr o
  | opened => exact h.advances_opened
  | closed => exact h.advances_closed hr

/-! ## All tokens -/

theorem pushAll_cases (us : List Token) (h : Tracks ts r) (hr : r.Balanced) :
    (∃ r', r.pushAll ts.length us = .ok r' ∧ Tracks (ts ++ us) r') ∨
      ∃ c, r.pushAll ts.length us = .error c ∧ c.PointsAt (ts ++ us) := by
  induction us generalizing ts r with
  | nil => exact .inl ⟨r, rfl, (List.append_nil ts).symm ▸ h⟩
  | cons t us ih =>
    rw [pushAll]
    rcases push_advances h hr t with ⟨r', hok, htracks⟩ | ⟨c, herror, hpoints⟩
    · rw [hok, List.append_cons]
      have hrest := ih htracks (hr.push hok)
      rwa [List.length_append] at hrest
    · rw [herror]
      exact .inr ⟨c, rfl, hpoints us⟩

/-- At the end of the tokens everything that waits gets its operands, or the last group that is
open or an operator is to blame. -/
theorem finish_cases (h : Tracks ts r) (hr : r.Balanced) :
    (∃ found, r.finish = .ok found) ∨ ∃ c, r.finish = .error c ∧ c.PointsAt ts := by
  have hnests := h.nests
  unfold finish
  cases hexpects : r.expectsOperand with
  | true =>
    cases hps : r.pending with
    | nil =>
      have hos := hr.length_of_expecting hexpects
      rw [hps] at hos
      rw [List.eq_nil_of_length_eq_zero hos]
      exact .inl ⟨_, rfl⟩
    | cons p ps =>
      cases p with
      | op o i =>
        have hpoints := h.pointsAt_of_waiting hexpects hps (.inl rfl)
        rw [List.append_nil] at hpoints
        exact .inr ⟨_, rfl, hpoints⟩
      | group i =>
        rw [hps] at hnests
        exact .inr ⟨_, rfl, hnests.lastUnmatched⟩
  | false =>
    dsimp only
    have hr := hr.of_complete hexpects
    rcases reduceAll_reduces r.pending r.operands with
      ⟨os, hok, hreduces⟩ | ⟨i, is, herror, hopen⟩ | ⟨c, herror, hfails⟩
    · obtain ⟨x, rfl⟩ := List.length_eq_one_iff.mp (hr.reduces hreduces).length_operands
      rw [hok]
      exact .inl ⟨_, rfl⟩
    · rw [hopen] at hnests
      rw [herror]
      exact .inr ⟨_, rfl, hnests.lastUnmatched⟩
    · have hpoints := h.pointsAt_of_fails hr hfails []
      rw [List.append_nil] at hpoints
      rw [herror]
      exact .inr ⟨c, rfl, hpoints⟩

/-- Where a sequence of tokens is refused, the error has the index of one of the tokens, and that
token is to blame in the way the error says. -/
theorem ofTokens_error_points {ts : List Token} {c : ParseError} (h : Expr.ofTokens ts = .error c) :
    ∃ i, c.index? = some i ∧ i < ts.length ∧ c.PointsAt ts := by
  have hpoints : c.PointsAt ts := by
    unfold Expr.ofTokens at h
    rcases pushAll_cases ts tracks_start balanced_start with ⟨r, hok, htracks⟩ | ⟨c', herror, hpoints⟩
    · rw [List.length_nil] at hok
      rw [hok] at h
      rcases finish_cases htracks (balanced_start.pushAll hok) with ⟨found, hfound⟩ | ⟨c', herror, hpoints⟩
      · cases hfound.symm.trans h
      · cases herror.symm.trans h
        exact hpoints
    · rw [List.length_nil] at herror
      rw [herror] at h
      cases h
      exact hpoints
  obtain ⟨i, hi, hlt⟩ := hpoints.exists_index
  exact ⟨i, hi, hlt, hpoints⟩

/-- Both groups that begin in `((1)+(2` are open at its end, and the last of these is named. -/
theorem ofTokens_error_points_last_group :
    Expr.ofTokens [.opened, .opened, .int 1, .closed, .op (.binary (.arithmetic .plus)), .opened,
      .int 2] = .error (.unclosedParen 5) ∧
    UnmatchedOpen [.opened, .opened, .int 1, .closed, .op (.binary (.arithmetic .plus)), .opened,
      .int 2] 5 := by
  have herror : Expr.ofTokens [.opened, .opened, .int 1, .closed,
      .op (.binary (.arithmetic .plus)), .opened, .int 2] = .error (.unclosedParen 5) := rfl
  obtain ⟨i, -, -, hpoints⟩ := ofTokens_error_points herror
  exact ⟨herror, hpoints.1⟩

end Reader

end DiceNotation
