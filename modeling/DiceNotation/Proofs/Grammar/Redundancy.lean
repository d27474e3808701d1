import DiceNotation.Proofs.Climbing.Bindings
import DiceNotation.Proofs.Climbing.Exchange
import DiceNotation.Proofs.Formula.RoundTrip

/-!
# Which parentheses are needed

An expression is written with parentheses around every operand that binds less tightly than its
operator. Of these, only the ones around a sign on the right of an operator say nothing, since a
sign cannot begin anywhere else than with its operand; and even those are needed where the next
operator would become part of what has the sign.

* `dispensable_of_binds`: what is true of a pair if the expression is read without it.
* `climb_without_pair`: a sign is read with and without parentheses around its expression.
* `ofTokens_without_pair_iff`: the pairs that can be left out.
-/

namespace DiceNotation

open Operator

/-! ## Tokens of expressions -/

namespace Expr

theorem payloads_clear (e : Expr) : e.clear.payloads = e.payloads := by
  induction e with
  | literal m l => rfl
  | sign m s x ih => rw [clear, payloads, payloads, ih]
  | factorial m x ih => rw [clear, payloads, payloads, ih]
  | binary m b x y ihx ihy => rw [clear, payloads, payloads, ihx, ihy]

theorem spells_tokens (e : Expr) : Spells e.clear e.tokens :=
  Climbing.spells_of_read (Climbing.read_tokens e)

theorem spells_enclose (op : Operator) (side : Side) (x : Expr) :
    Spells x.clear (enclose op side x x.tokens) := by
  unfold enclose
  split
  · exact .group x.spells_tokens
  · exact x.spells_tokens

theorem payloads_enclose (op : Operator) (side : Side) (x : Expr) :
    DiceNotation.payloads (enclose op side x x.tokens) = x.payloads := by
  rw [(spells_enclose op side x).payloads_eq, payloads_clear]

end Expr

theorem Balanced.without_pair {us vs ws : List Token}
    (h : Balanced (us ++ .opened :: vs ++ .closed :: ws)) (hvs : Balanced vs) :
    Balanced (us ++ vs ++ ws) := by
  have hpair (n : Nat) : DiceNotation.openAfter n (.opened :: vs ++ .closed :: ws) =
      DiceNotation.openAfter n (vs ++ ws) := by
    rw [List.cons_append, DiceNotation.openAfter, openAfter_append, openAfter_append,
      hvs.openAfter, hvs.openAfter]
    rfl
  rw [Balanced, List.append_assoc, openAfter_append] at h ⊢
  simpa only [hpair] using h

/-! ## Pairs around signs -/

/-- Whether a pair of parentheses encloses an expression with a sign that is the right operand of a
binary operator, given the tokens before, between and after them. -/
def EnclosesSignedRight (us vs ws : List Token) (e : Expr) : Prop :=
  ∃ before m b z m' s x init, us = init ++ [.op (.binary b)] ∧ vs = (Expr.sign m' s x).tokens ∧
    Part before (.binary m b z (.sign m' s x)) (payloads ws) e ∧
    payloads init = before ++ z.payloads

namespace EnclosesSignedRight

variable {us vs ws ts : List Token} {x : Expr}

theorem group (h : EnclosesSignedRight us vs ws x) :
    EnclosesSignedRight (.opened :: us) vs (ws ++ [.closed]) x := by
  obtain ⟨before, m, b, z, m', s, y, init, rfl, hvs, hpart, hinit⟩ := h
  exact ⟨before, m, b, z, m', s, y, .opened :: init, rfl, hvs, by simpa using hpart, hinit⟩

theorem sign (h : EnclosesSignedRight us vs ws x) (m : Option Value) (s : Sign) :
    EnclosesSignedRight (.op (.sign s) :: us) vs ws (.sign m s x) := by
  obtain ⟨before, m', b, z, m'', s', y, init, rfl, hvs, hpart, hinit⟩ := h
  refine ⟨_, m', b, z, m'', s', y, .op (.sign s) :: init, rfl, hvs, .sign m s hpart, ?_⟩
  rw [payloads_op, hinit, List.cons_append]

theorem factorial (h : EnclosesSignedRight us vs ws x) (m : Option Value) :
    EnclosesSignedRight us vs (ws ++ [.op .factorial]) (.factorial m x) := by
  obtain ⟨before, m', b, z, m'', s, y, init, rfl, hvs, hpart, hinit⟩ := h
  refine ⟨before, m', b, z, m'', s, y, init, rfl, hvs, ?_, hinit⟩
  rw [payloads_append]
  exact .factorial m hpart

theorem left (h : EnclosesSignedRight us vs ws x) (m : Option Value) (b : BinaryOperator)
    {y : Expr} (hts : payloads ts = y.payloads) :
    EnclosesSignedRight us vs (ws ++ .op (.binary b) :: ts) (.binary m b x y) := by
  obtain ⟨before, m', b', z, m'', s, x', init, rfl, hvs, hpart, hinit⟩ := h
  refine ⟨before, m', b', z, m'', s, x', init, rfl, hvs, ?_, hinit⟩
  rw [payloads_append, payloads_op, hts]
  exact .left m b y hpart

theorem right (h : EnclosesSignedRight us vs ws x) (m : Option Value) (b : BinaryOperator)
    {y : Expr} (hts : payloads ts = y.payloads) :
    EnclosesSignedRight (ts ++ .op (.binary b) :: us) vs ws (.binary m b y x) := by
  obtain ⟨before, m', b', z, m'', s, x', init, rfl, hvs, hpart, hinit⟩ := h
  refine ⟨_, m', b', z, m'', s, x', ts ++ .op (.binary b) :: init, by simp, hvs,
    .right m b y hpart, ?_⟩
  rw [payloads_append, payloads_op, hts, hinit, List.append_assoc, List.cons_append]

end EnclosesSignedRight

/-! ## Tokens without a pair -/

/-- What is true of a pair of parentheses in an expression that can be left out. If the expression
ends with the pair, a sign waits there for what follows. -/
structure Dispensable (us vs ws : List Token) (rights : List Operator) (e : Expr) : Prop where
  signed : EnclosesSignedRight us vs ws e
  next : ∀ o, ws.head? = some (.op o) → o.precedence ≤ 4
  last : ws = [] → ∃ s, .sign s ∈ rights

theorem head?_append_cons {t t' : Token} {ts rest : List Token}
    (h : (ts ++ t :: rest).head? = some t') : ts.head? = some t' ∨ ts = [] ∧ t = t' := by
  cases ts with
  | nil => exact .inr ⟨rfl, Option.some.inj h⟩
  | cons u us => exact .inl h

/-- A sign that waits for what follows lets no operator follow that binds tighter. -/
theorem Dispensable.next_before {us vs ws : List Token} {rights : List Operator} {e : Expr}
    (h : Dispensable us vs ws rights e) {op : Operator}
    (hrights : ∀ o ∈ rights, o.reducesBefore op = true) {rest : List Token} {o : Operator}
    (ho : (ws ++ .op op :: rest).head? = some (.op o)) : o.precedence ≤ 4 := by
  rcases head?_append_cons ho with hws | ⟨hnil, heq⟩
  · exact h.next o hws
  · obtain rfl := Token.op.inj heq
    obtain ⟨s, hs⟩ := h.last hnil
    exact (reducesBefore_iff.mp (hrights _ hs)).1

/-- In tokens of its own an expression is not in parentheses. -/
theorem Binds.of_tokens {e : Expr} {root : Option Operator} {rights : List Operator}
    (h : Binds e.clear e.tokens root rights) {o : Operator} (ho : e.op? = some o) :
    (o.arity ≠ .before → root = some o) ∧ (o.arity ≠ .after → o ∈ rights) := by
  cases e with
  | literal m l => cases ho
  | sign m s x =>
    cases ho
    obtain ⟨-, rights', -, -, rfl⟩ := h.of_sign
    exact ⟨fun hne => absurd rfl hne, fun _ => List.mem_cons_self⟩
  | factorial m x =>
    cases ho
    obtain ⟨-, -, -, -, hroot⟩ := h.of_factorial
    exact ⟨fun _ => hroot, fun hne => absurd rfl hne⟩
  | binary m b x y =>
    cases ho
    obtain ⟨-, -, -, rights', -, -, -, -, hroot, rfl⟩ :=
      h.of_binary (x.spells_enclose b .left).balanced (x.spells_enclose b .left).payloads_eq
    exact ⟨fun _ => hroot, fun _ => List.mem_cons_self⟩

section Operand

variable {vs us ws : List Token} (hvs : Balanced vs) {op : Operator} {side : Side} {x : Expr}
  {root : Option Operator} {rights : List Operator}
include hvs

/-- A pair in the tokens of an operand is the one around it or lies inside. -/
theorem dispensable_operand
    (ih : ∀ us ws root rights, x.tokens = us ++ .opened :: vs ++ .closed :: ws →
      Binds x.clear (us ++ vs ++ ws) root rights → Dispensable us vs ws rights x)
    (h : Expr.enclose op side x x.tokens = us ++ .opened :: vs ++ .closed :: ws)
    (hbinds : Binds x.clear (us ++ vs ++ ws) root rights) :
    Dispensable us vs ws rights x ∨
      (us = [] ∧ vs = x.tokens ∧ ws = []) ∧ ∃ o, x.op? = some o ∧ op.encloses side (some o) = true ∧
        Binds x.clear x.tokens root rights := by
  unfold Expr.enclose at h
  split at h
  · next henc =>
    rcases pair_in_group hvs x.spells_tokens.balanced h.symm with
      ⟨rfl, rfl, rfl⟩ | ⟨as, bs, rfl, rfl, hinner⟩
    · refine .inr ⟨⟨rfl, rfl, rfl⟩, ?_⟩
      rw [List.nil_append, List.append_nil] at hbinds
      cases hop : x.op? with
      | none =>
        rw [hop] at henc
        cases henc
      | some o => exact ⟨o, rfl, hop ▸ henc, hbinds⟩
    · have hbalanced : Balanced (as ++ vs ++ bs) :=
        (hinner ▸ x.spells_tokens.balanced).without_pair hvs
      have hgroup : .opened :: as ++ vs ++ (bs ++ [.closed]) =
          .opened :: (as ++ vs ++ bs) ++ [Token.closed] := by simp
      rw [hgroup] at hbinds
      obtain ⟨root', rights', hbinds'⟩ := hbinds.of_group hbalanced
      obtain ⟨hsigned, hnext, -⟩ := ih as bs root' rights' hinner hbinds'
      refine .inl ⟨hsigned.group, fun o ho => ?_, fun hnil => ?_⟩
      · rcases head?_append_cons ho with hbs | ⟨-, hclosed⟩
        · exact hnext o hbs
        · cases hclosed
      · cases bs <;> cases hnil
  · exact .inl (ih us ws root rights h hbinds)

theorem dispensable_of_binds (e : Expr) (us ws : List Token) (root : Option Operator)
    (rights : List Operator) (htokens : e.tokens = us ++ .opened :: vs ++ .closed :: ws)
    (h : Binds e.clear (us ++ vs ++ ws) root rights) : Dispensable us vs ws rights e := by
  induction e generalizing us ws root rights with
  | literal m l =>
    have hlen := congrArg List.length htokens
    simp only [Expr.tokens, List.length_append, List.length_cons, List.length_nil] at hlen
    omega
  | sign m s x ih =>
    cases us with
    | nil => cases htokens
    | cons u us =>
      obtain ⟨rfl, hoperand⟩ := List.cons.inj htokens
      obtain ⟨root', rights', hx, hroot, rfl⟩ := h.of_sign
      rcases dispensable_operand hvs ih hoperand hx with hdisp | ⟨-, o, ho, henc, hx'⟩
      · refine ⟨hdisp.signed.sign m s, hdisp.next, fun hnil => ?_⟩
        obtain ⟨s', hs'⟩ := hdisp.last hnil
        exact ⟨s', List.mem_cons_of_mem _ hs'⟩
      · -- the sign would take only the first operand of what was in parentheses
        have hfalse := hroot o ((hx'.of_tokens ho).1 (arity_ne_before_of_sign_encloses henc))
        cases hfalse.symm.trans (reducesBefore_of_encloses henc)
  | factorial m x ih =>
    rcases List.eq_nil_or_concat ws with rfl | ⟨bs, w, hws⟩
    · cases (List.append_inj' htokens rfl).2
    · rw [List.concat_eq_append] at hws
      subst hws
      rw [← List.append_assoc] at h
      rw [← List.cons_append, ← List.append_assoc] at htokens
      obtain ⟨hoperand, hw⟩ := List.append_inj' htokens rfl
      cases hw
      obtain ⟨root', rights', hx, hrights, -⟩ := h.of_factorial
      rcases dispensable_operand hvs ih hoperand hx with hdisp | ⟨-, o, ho, henc, hx'⟩
      · exact ⟨hdisp.signed.factorial m, fun o ho => hdisp.next_before hrights ho, by simp⟩
      · -- the factorial would take only the last operand
        have htrue := hrights o ((hx'.of_tokens ho).2 (arity_ne_after_of_encloses henc))
        cases htrue.symm.trans (not_reducesBefore_of_encloses henc)
  | binary m b x y ihx ihy =>
    have hsx := x.spells_enclose b .left
    have hsy := y.spells_enclose b .right
    rcases pair_beside_binary hvs hsx.balanced htokens.symm with
      ⟨as, hoperand, rfl⟩ | ⟨as, rfl, hoperand⟩
    · have hbalanced : Balanced (us ++ vs ++ as) := (hoperand ▸ hsx.balanced).without_pair hvs
      have hpayloads : payloads (us ++ vs ++ as) = x.clear.payloads := by
        rw [← hsx.payloads_eq, hoperand]
        simp
      rw [← List.append_assoc] at h
      obtain ⟨_, rights', _, _, hx, hrights, -⟩ := h.of_binary hbalanced hpayloads
      rcases dispensable_operand hvs ihx hoperand hx with hdisp | ⟨-, o, ho, henc, hx'⟩
      · exact ⟨hdisp.signed.left m b (y.payloads_enclose b .right),
          fun o ho => hdisp.next_before hrights ho, by simp⟩
      · -- the operator would take only the last operand
        have htrue := hrights o ((hx'.of_tokens ho).2 (arity_ne_after_of_encloses henc))
        cases htrue.symm.trans (not_reducesBefore_of_encloses henc)
    · have hsplit : Expr.enclose b .left x x.tokens ++ .op (.binary b) :: as ++ vs ++ ws =
          Expr.enclose b .left x x.tokens ++ .op (.binary b) :: (as ++ vs ++ ws) := by simp
      rw [hsplit] at h
      obtain ⟨_, _, _, rights', -, -, hy, hroot, -, rfl⟩ :=
        h.of_binary hsx.balanced hsx.payloads_eq
      rcases dispensable_operand hvs ihy hoperand hy with
        hdisp | ⟨⟨rfl, rfl, rfl⟩, o, ho, henc, hy'⟩
      · refine ⟨hdisp.signed.right m b (x.payloads_enclose b .left), hdisp.next, fun hnil => ?_⟩
        obtain ⟨s, hs⟩ := hdisp.last hnil
        exact ⟨s, List.mem_cons_of_mem _ hs⟩
      · cases y with
        | literal m' l => cases ho
        | sign m' s y =>
          cases ho
          have hs := (hy'.of_tokens rfl).2 (by simp [arity])
          refine ⟨?_, by simp, fun _ => ⟨s, List.mem_cons_of_mem _ hs⟩⟩
          exact ⟨[], m, b, x, m', s, y, Expr.enclose b .left x x.tokens, rfl, rfl, .whole _,
            x.payloads_enclose b .left⟩
        | factorial | binary =>
          -- the operator would take only the first operand
          cases ho
          have hfalse := hroot _ ((hy'.of_tokens rfl).1 (by simp [arity]))
          cases hfalse.symm.trans (reducesBefore_of_encloses henc)

end Operand

/-! ## Signs without parentheses -/

namespace Climbing

theorem head?_of_extension? {ts : List Token} {o : Operator} (h : extension? ts = some o) :
    ts.head? = some (.op o) := by
  unfold extension? at h
  split at h <;> cases h <;> rfl

/-- A signed expression ends before operators that do not bind tighter than the sign. -/
theorem endsBefore_of_head? (m : Option Value) (s : Sign) (x : Expr) {ts : List Token}
    (h : ∀ o, ts.head? = some (.op o) → o.precedence ≤ 4) : EndsBefore (.sign m s x) ts := by
  rintro _ ⟨⟩ op hop next hnext
  have hle := h next (head?_of_extension? hnext)
  refine reducesBefore_iff.mpr ⟨Nat.le_trans hle hop, ?_⟩
  rintro rfl
  exact absurd hle (by decide)

theorem climb_without_pair (m : Option Value) (s : Sign) (x : Expr) {ts : List Token}
    (h : ∀ o, ts.head? = some (.op o) → o.precedence ≤ 4) (left : Option Operator) :
    climb left (.opened :: (Expr.sign m s x).tokens ++ .closed :: ts) =
      climb left ((Expr.sign m s x).tokens ++ ts) := by
  have hends := endsBefore_of_head? m s x h
  have hinner : climb none ((Expr.sign m s x).tokens ++ .closed :: ts) =
      some ((Expr.sign m s x).clear, .closed :: ts) := by
    rw [climb_tokens _ none _ (beginsAfter_none _) fun _ _ op _ => stops_closed (some op) ts]
    exact extend_of_stops _ (stops_closed none ts)
  have hright : climb (some (.sign s)) (Expr.enclose (.sign s) .right x x.tokens ++ ts) =
      some (x.clear, ts) := by
    rw [climb_enclose (climb_tokens x) fun henc =>
      ⟨beginsAfter_of_not_encloses henc (by simp [arity]), hends.right rfl henc⟩]
    exact extend_of_stops _ (hends _ rfl _ (Nat.le_refl _))
  rw [climb_eq, climb_eq, List.cons_append, operand_opened, hinner, Expr.tokens, List.cons_append,
    operand_sign, hright]
  rfl

/-- A pair can be left out if it encloses a signed expression on the right of a binary operator and
no operator follows that binds tighter than the sign. No other pair can be left out. -/
theorem read_without_pair_iff {e : Expr} {us vs ws : List Token}
    (htokens : e.tokens = us ++ .opened :: vs ++ .closed :: ws) (hvs : Balanced vs) :
    read (us ++ vs ++ ws) = some e.clear ↔
      EnclosesSignedRight us vs ws e ∧ ∀ o, ws.head? = some (.op o) → o.precedence ≤ 4 := by
  constructor
  · intro h
    obtain ⟨root, rights, hbinds⟩ := binds_of_read h
    obtain ⟨hsigned, hnext, -⟩ := dispensable_of_binds hvs e us ws root rights htokens hbinds
    exact ⟨hsigned, hnext⟩
  · rintro ⟨⟨-, -, b, -, m, s, x, init, rfl, rfl, -, -⟩, hnext⟩
    have hread := read_tokens e
    have hsplit : init ++ [.op (.binary b)] ++ .opened :: (Expr.sign m s x).tokens ++
        .closed :: ws = init ++ .op (.binary b) ::
          (.opened :: (Expr.sign m s x).tokens ++ .closed :: ws) := by simp
    rw [htokens, hsplit] at hread
    have hwithout := read_exchange (climb_without_pair m s x hnext (some (.binary b))) hread
    simpa using hwithout

end Climbing

/-! ## Formulas -/

namespace Formula

theorem ofTokens_eq_some_clear_iff (e : Expr) (hdepth : e.depth ≤ maxDepth) (ts : List Token) :
    ofTokens ts = .ok (mk (some e)).clear ↔ Climbing.read ts = some e.clear := by
  constructor
  · intro h
    rcases Reader.ofTokens_cases ts with ⟨-, hts⟩ | ⟨x, hx, -, hts⟩ | ⟨c, hts⟩
    · rw [ofTokens_of_expr hts] at h
      cases h
    · rw [ofTokens_of_expr hts] at h
      cases h
      exact hx
    · rw [ofTokens_error_of_expr hts] at h
      cases h
  · intro h
    exact ofTokens_of_expr (Reader.ofTokens_of_read h (e.depth_clear ▸ hdepth))

/-- Without one of its pairs of parentheses, what is written is read as the formula if the pair
encloses an expression with a sign on the right of a binary operator, and no operator follows that
binds tighter than the sign. Every other pair is needed. -/
theorem ofTokens_without_pair_iff (f : Formula) (hdepth : f.depth ≤ maxDepth)
    {us vs ws : List Token} (htokens : f.tokens = us ++ .opened :: vs ++ .closed :: ws)
    (hvs : Balanced vs) :
    ofTokens (us ++ vs ++ ws) = .ok f.clear ↔
      (∃ e, f.root = some e ∧ EnclosesSignedRight us vs ws e) ∧
        ∀ o, ws.head? = some (.op o) → o.precedence ≤ 4 := by
  obtain ⟨_ | e⟩ := f
  · -- nothing is written
    cases us <;> cases htokens
  · rw [ofTokens_eq_some_clear_iff e hdepth, Climbing.read_without_pair_iff htokens hvs]
    simp

theorem ofTokens_without_pair_power :
    let f : Formula := ⟨some (.binary none (.arithmetic .times)
      (.binary none (.arithmetic .power) (.int 2) (.sign none .minus (.int 1))) (.int 3))⟩
    let us : List Token := [.int 2, .op power]
    let vs : List Token := [.op (.sign .minus), .int 1]
    let ws : List Token := [.op (.binary (.arithmetic .times)), .int 3]
    f.text = "2^(-1)*3" ∧ f.depth ≤ maxDepth ∧ f.tokens = us ++ .opened :: vs ++ .closed :: ws ∧
      Balanced vs ∧ ofTokens (us ++ vs ++ ws) = .ok f.clear := by
  intro f us vs ws
  have hdepth : f.depth ≤ maxDepth := by decide
  have htokens : f.tokens = us ++ .opened :: vs ++ .closed :: ws := rfl
  have hvs : Balanced vs := by decide
  refine ⟨by decide, hdepth, htokens, hvs, ?_⟩
  refine (ofTokens_without_pair_iff f hdepth htokens hvs).mpr ⟨⟨_, rfl, ?_⟩, ?_⟩
  · exact ⟨[], none, .arithmetic .power, .int 2, none, .minus, .int 1, [.int 2], rfl, rfl,
      .left none (.arithmetic .times) (.int 3) (.whole _), rfl⟩
  · rintro _ ⟨⟩
    decide

end Formula

end DiceNotation
