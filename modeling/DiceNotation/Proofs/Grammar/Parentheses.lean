import DiceNotation.Proofs.Grammar.Phrases

/-!
# Parentheses and parts

Parentheses group tokens and do nothing else: without them, the tokens that spell an expression
are its literals and operators in written order, and what stands between two parentheses that
belong together is one of its parts.

* `Spells.payloads_eq`: no literal or operator is lost, added or moved.
* `Part.payloads_eq`, `Spells.exists_part`: parts span neighbouring payloads, and matching
  parentheses enclose the span of a part.
-/

namespace DiceNotation

/-! ## Payloads -/

def Token.isPayload : Token → Bool
  | .opened | .closed => false
  | _ => true

/-- The tokens without the parentheses. -/
def payloads (ts : List Token) : List Token := ts.filter Token.isPayload

@[simp] theorem payloads_nil : payloads [] = [] := rfl

@[simp] theorem payloads_append (us vs : List Token) :
    payloads (us ++ vs) = payloads us ++ payloads vs := List.filter_append us vs

@[simp] theorem payloads_opened (ts : List Token) : payloads (.opened :: ts) = payloads ts := rfl

@[simp] theorem payloads_closed (ts : List Token) : payloads (.closed :: ts) = payloads ts := rfl

@[simp] theorem payloads_op (o : Operator) (ts : List Token) :
    payloads (.op o :: ts) = .op o :: payloads ts := rfl

@[simp] theorem payloads_literal (l : Literal) (ts : List Token) :
    payloads (l.toToken :: ts) = l.toToken :: payloads ts := by
  cases l <;> rfl

/-- The literals and operators of an expression in written order. -/
def Expr.payloads : Expr → List Token
  | literal _ l => [l.toToken]
  | sign _ s x => .op (.sign s) :: x.payloads
  | factorial _ x => x.payloads ++ [.op .factorial]
  | binary _ b x y => x.payloads ++ .op (.binary b) :: y.payloads

theorem Spells.payloads_eq {e : Expr} {ts : List Token} (h : Spells e ts) :
    payloads ts = e.payloads := by
  induction h with
  | literal m l => exact payloads_literal l []
  | group _ ih => simpa using ih
  | sign m s _ ih => simp [Expr.payloads, ih]
  | factorial m _ ih => simp [Expr.payloads, ih]
  | binary m b _ _ ihx ihy => simp [Expr.payloads, ihx, ihy]

/-! ## Matching parentheses -/

/-- How many parentheses are open after the tokens, of `n` before them; none if one is closed
that was never opened. -/
def openAfter (n : Nat) : List Token → Option Nat
  | [] => some n
  | .opened :: ts => openAfter (n + 1) ts
  | .closed :: ts =>
    match n with
    | 0 => none
    | n + 1 => openAfter n ts
  | _ :: ts => openAfter n ts

/-- All parentheses among the tokens belong together. -/
def Balanced (ts : List Token) : Prop := openAfter 0 ts = some 0

instance (ts : List Token) : Decidable (Balanced ts) := inferInstanceAs (Decidable (_ = _))

theorem openAfter_append (n : Nat) (us vs : List Token) :
    openAfter n (us ++ vs) = (openAfter n us).bind fun m => openAfter m vs := by
  induction us generalizing n with
  | nil => rfl
  | cons t us ih =>
    cases t with
    | closed => cases n with
      | zero => rfl
      | succ n => exact ih n
    | opened => exact ih (n + 1)
    | _ => exact ih n

theorem openAfter_add {n m : Nat} {ts : List Token} (k : Nat) (h : openAfter n ts = some m) :
    openAfter (n + k) ts = some (m + k) := by
  induction ts generalizing n with
  | nil => cases h; rfl
  | cons t ts ih =>
    cases t with
    | closed => cases n with
      | zero => cases h
      | succ n =>
        rw [Nat.succ_add]
        exact ih h
    | opened =>
      rw [openAfter, Nat.add_right_comm]
      exact ih h
    | _ => exact ih h

theorem Balanced.openAfter {ts : List Token} (h : Balanced ts) (n : Nat) :
    openAfter n ts = some n := by
  have h := openAfter_add n h
  rwa [Nat.zero_add] at h

theorem Balanced.append {us vs : List Token} (hus : Balanced us) (hvs : Balanced vs) :
    Balanced (us ++ vs) := by
  rw [Balanced, openAfter_append, hus.openAfter]
  exact hvs

theorem Spells.balanced {e : Expr} {ts : List Token} (h : Spells e ts) : Balanced ts := by
  induction h with
  | literal m l => cases l <;> rfl
  | @group e ts _ ih =>
    rw [Balanced, List.cons_append, DiceNotation.openAfter, openAfter_append, ih.openAfter]
    rfl
  | sign m s _ ih => exact ih
  | factorial m _ ih => exact ih.append rfl
  | binary m b _ _ ihx ihy => exact ihx.append ihy

/-- An opening parenthesis that is followed by complete groups is not closed yet. -/
theorem not_balanced_of_opened {us vs : List Token} {n : Nat}
    (hvs : openAfter 0 vs = some n) : ¬ Balanced (us ++ .opened :: vs) := by
  intro h
  rw [Balanced, openAfter_append] at h
  obtain ⟨m, -, hm⟩ := Option.bind_eq_some_iff.mp h
  have hopen := openAfter_add (m + 1) hvs
  rw [Nat.zero_add] at hopen
  rw [openAfter, hopen] at hm
  cases hm

theorem openAfter_closed {ts : List Token} (h : Balanced ts) (us : List Token) :
    openAfter 0 (ts ++ .closed :: us) = none := by
  rw [openAfter_append, h.openAfter]
  rfl

/-- There is only one closing parenthesis that belongs to an opening one. -/
theorem eq_of_append_closed {us vs ws rest : List Token} (hus : Balanced us) (hvs : Balanced vs)
    (h : us ++ .closed :: rest = vs ++ .closed :: ws) : us = vs ∧ rest = ws := by
  rcases List.append_eq_append_iff.mp h with ⟨as, rfl, has⟩ | ⟨as, rfl, has⟩
  · cases as with
    | nil => exact ⟨(List.append_nil us).symm, by simpa using has⟩
    | cons a as =>
      cases has
      rw [Balanced, openAfter_closed hus] at hvs
      cases hvs
  · cases as with
    | nil => exact ⟨List.append_nil vs, by simpa using has.symm⟩
    | cons a as =>
      cases has
      rw [Balanced, openAfter_closed hvs] at hus
      cases hus

/-! ## Parts -/

/-- `Part us x vs e`: the expression `x` is a part of `e`, with the payloads `us` before it and
`vs` after it. -/
inductive Part : List Token → Expr → List Token → Expr → Prop where
  | whole (e : Expr) : Part [] e [] e
  | sign (m : Option Value) (s : Sign) {us vs : List Token} {x y : Expr} :
      Part us x vs y → Part (.op (.sign s) :: us) x vs (.sign m s y)
  | factorial (m : Option Value) {us vs : List Token} {x y : Expr} :
      Part us x vs y → Part us x (vs ++ [.op .factorial]) (.factorial m y)
  | left (m : Option Value) (b : BinaryOperator) {us vs : List Token} {x y : Expr} (z : Expr) :
      Part us x vs y → Part us x (vs ++ .op (.binary b) :: z.payloads) (.binary m b y z)
  | right (m : Option Value) (b : BinaryOperator) {us vs : List Token} {x y : Expr} (z : Expr) :
      Part us x vs y → Part (z.payloads ++ .op (.binary b) :: us) x vs (.binary m b z y)

/-- A part lies between the payloads before it and those after it. -/
theorem Part.payloads_eq {us vs : List Token} {x e : Expr} (h : Part us x vs e) :
    e.payloads = us ++ x.payloads ++ vs := by
  induction h with
  | whole e => simp
  | sign m s _ ih => simp [Expr.payloads, ih]
  | factorial m _ ih => simp [Expr.payloads, ih]
  | left m b z _ ih => simp [Expr.payloads, ih]
  | right m b z _ ih => simp [Expr.payloads, ih]

theorem exists_openAfter_of_append {n m : Nat} {us vs : List Token}
    (h : openAfter n (us ++ vs) = some m) : ∃ k, openAfter n us = some k := by
  rw [openAfter_append] at h
  obtain ⟨k, hk, -⟩ := Option.bind_eq_some_iff.mp h
  exact ⟨k, hk⟩

/-- A matching pair of parentheses lies on one side of a binary operator whose left side is
balanced. -/
theorem pair_beside_binary {us vs ws xs ys : List Token} {b : BinaryOperator} (hvs : Balanced vs)
    (hxs : Balanced xs)
    (h : us ++ .opened :: vs ++ .closed :: ws = xs ++ .op (.binary b) :: ys) :
    (∃ as, xs = us ++ .opened :: vs ++ .closed :: as ∧ ws = as ++ .op (.binary b) :: ys) ∨
      ∃ as, us = xs ++ .op (.binary b) :: as ∧ ys = as ++ .opened :: vs ++ .closed :: ws := by
  rw [List.append_assoc, List.cons_append] at h
  rcases List.append_eq_append_iff.mp h with ⟨as, rfl, has⟩ | ⟨as, rfl, has⟩
  · cases as with
    | nil => cases has
    | cons a as =>
      obtain ⟨rfl, hafter⟩ := List.cons.inj has
      rcases List.append_eq_append_iff.mp hafter with ⟨cs, rfl, hcs⟩ | ⟨cs, rfl, hcs⟩
      · cases cs with
        | nil => cases hcs
        | cons c cs =>
          obtain ⟨rfl, rfl⟩ := List.cons.inj hcs
          exact .inl ⟨cs, by simp, rfl⟩
      · -- the operator would stand between the parentheses
        obtain ⟨n, hn⟩ := exists_openAfter_of_append hvs
        exact absurd hxs (not_balanced_of_opened hn)
  · cases as with
    | nil => cases has
    | cons a as =>
      obtain ⟨rfl, rfl⟩ := List.cons.inj has
      exact .inr ⟨as, rfl, by simp⟩

/-- Within a group, a matching pair of parentheses is the group itself or lies inside. -/
theorem pair_in_group {us vs ws xs : List Token} (hvs : Balanced vs) (hxs : Balanced xs)
    (h : us ++ .opened :: vs ++ .closed :: ws = .opened :: xs ++ [.closed]) :
    (us = [] ∧ vs = xs ∧ ws = []) ∨
      ∃ as bs, us = .opened :: as ∧ ws = bs ++ [.closed] ∧
        xs = as ++ .opened :: vs ++ .closed :: bs := by
  cases us with
  | nil =>
    obtain ⟨rfl, rfl⟩ := eq_of_append_closed hvs hxs (List.cons.inj h).2
    exact .inl ⟨rfl, rfl, rfl⟩
  | cons u us =>
    obtain ⟨rfl, hinner⟩ := List.cons.inj h
    rcases List.eq_nil_or_concat ws with rfl | ⟨bs, w, hws⟩
    · obtain ⟨rfl, -⟩ := List.append_inj' hinner rfl
      exact absurd hxs (not_balanced_of_opened hvs)
    · rw [List.concat_eq_append] at hws
      subst hws
      have hend : (us ++ .opened :: vs ++ .closed :: bs) ++ [w] = xs ++ [.closed] := by
        simpa using hinner
      obtain ⟨rfl, hw⟩ := List.append_inj' hend rfl
      cases hw
      exact .inr ⟨us, bs, rfl, rfl, rfl⟩

/-- What stands between matching parentheses spells a part of the expression, and the payloads
before and after it are those before and after that part. -/
theorem Spells.exists_part {e : Expr} {ts : List Token} (h : Spells e ts) {us vs ws : List Token}
    (hts : us ++ .opened :: vs ++ .closed :: ws = ts) (hvs : Balanced vs) :
    ∃ x, Part (payloads us) x (payloads ws) e ∧ Spells x vs := by
  induction h generalizing us ws with
  | literal m l =>
    have hlen := congrArg List.length hts
    simp only [List.length_append, List.length_cons, List.length_nil] at hlen
    omega
  | @group e ts hts' ih =>
    rcases pair_in_group hvs hts'.balanced hts with ⟨rfl, rfl, rfl⟩ | ⟨as, bs, rfl, rfl, hinner⟩
    · exact ⟨e, .whole e, hts'⟩
    · obtain ⟨x, hpart, hx⟩ := ih hinner.symm
      refine ⟨x, ?_, hx⟩
      simpa using hpart
  | sign m s _ ih =>
    cases us with
    | nil => cases hts
    | cons u us =>
      obtain ⟨rfl, hright⟩ := List.cons.inj hts
      obtain ⟨x, hpart, hx⟩ := ih hright
      exact ⟨x, .sign m s hpart, hx⟩
  | factorial m _ ih =>
    rcases List.eq_nil_or_concat ws with rfl | ⟨bs, w, hws⟩
    · cases (List.append_inj' hts rfl).2
    · rw [List.concat_eq_append] at hws
      subst hws
      rw [← List.cons_append, ← List.append_assoc] at hts
      obtain ⟨hleft, hw⟩ := List.append_inj' hts rfl
      cases hw
      obtain ⟨x, hpart, hx⟩ := ih hleft
      refine ⟨x, ?_, hx⟩
      rw [payloads_append]
      exact .factorial m hpart
  | @binary m b x y xs ys hxs hys ihx ihy =>
    rcases pair_beside_binary hvs hxs.balanced hts with ⟨as, hleft, rfl⟩ | ⟨as, rfl, hright⟩
    · obtain ⟨z, hpart, hz⟩ := ihx hleft.symm
      refine ⟨z, ?_, hz⟩
      rw [payloads_append, payloads_op, hys.payloads_eq]
      exact .left m b y hpart
    · obtain ⟨z, hpart, hz⟩ := ihy hright.symm
      refine ⟨z, ?_, hz⟩
      rw [payloads_append, payloads_op, hxs.payloads_eq]
      exact .right m b x hpart

end DiceNotation
