import DiceNotation.Proofs.Grammar.Parentheses

/-!
# How reading groups tokens

Of all groupings of a phrase, reading chooses one by how tightly operators bind. An operator takes
what stands on its left only after all operators whose right operands end there, and on its right
it leaves alone what binds less tightly than itself, unless that begins with a sign.

* `Binds`: phrases with groupings in which all operators agree with their neighbours.
* `binds_of_read`: what is read is grouped in this way.
* `Binds.of_sign`, `Binds.of_factorial`, `Binds.of_binary`, `Binds.of_group`: so are its operands.
-/

namespace DiceNotation

/-- A phrase together with a grouping that agrees with how tightly the operators bind. Of tokens
that are not a group, `root` is the operator of the expression, unless that is a sign, and `rights`
are the operators whose right operands end with the tokens. -/
inductive Binds : Expr → List Token → Option Operator → List Operator → Prop where
  | literal (m : Option Value) (l : Literal) : Binds (.literal m l) [l.toToken] none []
  | group {e : Expr} {ts : List Token} {root : Option Operator} {rights : List Operator} :
      Binds e ts root rights → Binds e (.opened :: ts ++ [.closed]) none []
  | sign (m : Option Value) (s : Sign) {x : Expr} {ts : List Token} {root : Option Operator}
      {rights : List Operator} : Binds x ts root rights →
      (∀ o, root = some o → (Operator.sign s).reducesBefore o = false) →
      Binds (.sign m s x) (.op (.sign s) :: ts) none (.sign s :: rights)
  | factorial (m : Option Value) {x : Expr} {ts : List Token} {root : Option Operator}
      {rights : List Operator} : Binds x ts root rights →
      (∀ o ∈ rights, o.reducesBefore .factorial = true) →
      Binds (.factorial m x) (ts ++ [.op .factorial]) (some .factorial) []
  | binary (m : Option Value) (b : BinaryOperator) {x y : Expr} {us vs : List Token}
      {root root' : Option Operator} {rights rights' : List Operator} :
      Binds x us root rights → (∀ o ∈ rights, o.reducesBefore b = true) →
      Binds y vs root' rights' →
      (∀ o, root' = some o → (Operator.binary b).reducesBefore o = false) →
      Binds (.binary m b x y) (us ++ .op (.binary b) :: vs) (some b) (.binary b :: rights')

theorem Binds.spells {e : Expr} {ts : List Token} {root : Option Operator}
    {rights : List Operator} (h : Binds e ts root rights) : Spells e ts := by
  induction h with
  | literal m l => exact .literal m l
  | group _ ih => exact .group ih
  | sign m s _ _ ih => exact .sign m s ih
  | factorial m _ _ ih => exact .factorial m ih
  | binary m b _ _ _ _ ihx ihy => exact .binary m b ihx ihy

namespace Climbing

/-! ## What is read agrees -/

/-- What was read on the right of an operator is grouped in agreement with it, and with what
follows. -/
def BindsFrom (left : Option Operator) (ts : List Token) (found : Option (Expr × List Token)) :
    Prop :=
  ∀ e rest, found = some (e, rest) → ∃ us root rights, ts = us ++ rest ∧ Binds e us root rights ∧
    (∀ o, root = some o → takesFirst left o = false) ∧ ∀ o ∈ rights, Stops (some o) rest

theorem bindsFrom_operand {ts : List Token}
    (ih : ∀ left inner, inner.length < ts.length → BindsFrom left inner (climb left inner))
    (left : Option Operator) : BindsFrom left ts (operand ts) := by
  intro e rest h
  rcases operand_cases h with ⟨l, rfl, rfl⟩ | ⟨inner, rfl, hx⟩ | ⟨s, inner, x, rfl, hx, rfl⟩
  · exact ⟨[l.toToken], none, [], rfl, .literal none l, nofun, nofun⟩
  · obtain ⟨us, root, rights, rfl, hus, -, -⟩ := ih none inner (Nat.lt_add_one _) e _ hx
    exact ⟨.opened :: us ++ [.closed], none, [], by simp, .group hus, nofun, nofun⟩
  · obtain ⟨us, root, rights, rfl, hus, hroot, hrights⟩ :=
      ih (some (.sign s)) inner (Nat.lt_add_one _) x _ hx
    exact ⟨.op (.sign s) :: us, none, .sign s :: rights, rfl, .sign none s hus hroot, nofun,
      List.forall_mem_cons.mpr ⟨stops_of_climb hx, hrights⟩⟩

theorem bindsFrom_climb (left : Option Operator) (ts : List Token) :
    BindsFrom left ts (climb left ts) := by
  -- an operand that is extended agrees with both the operator before it and the tokens after it
  refine (induction_on_reading (O := fun ts => ∀ left, BindsFrom left ts (operand ts))
    (C := fun left ts => BindsFrom left ts (climb left ts))
    (E := fun left x ts => ∀ vs root rights, Binds x vs root rights →
      (∀ o, root = some o → takesFirst left o = false) → (∀ o ∈ rights, Stops (some o) ts) →
      ∀ e rest, extend left x ts = some (e, rest) → ∃ us root' rights', ts = us ++ rest ∧
        Binds e (vs ++ us) root' rights' ∧ (∀ o, root' = some o → takesFirst left o = false) ∧
        ∀ o ∈ rights', Stops (some o) rest)
    (fun ts ih => bindsFrom_operand ih) ?climb_of ?stops ?factorial ?binary).2.1 left ts
  case climb_of =>
    intro left ts hoperand hextend e rest h
    rw [climb_eq] at h
    obtain ⟨⟨x, mid⟩, hx, he⟩ := Option.bind_eq_some_iff.mp h
    obtain ⟨us, root, rights, rfl, hus, hroot, hrights⟩ := hoperand left x mid hx
    obtain ⟨vs, root', rights', rfl, hvs, hroot', hrights'⟩ :=
      hextend x mid hx us root rights hus hroot hrights e rest he
    exact ⟨us ++ vs, root', rights', (List.append_assoc us vs rest).symm, hvs, hroot', hrights'⟩
  case stops =>
    intro left x ts hs vs root rights hvs hroot hrights e rest h
    rw [extend_of_stops x hs] at h
    cases h
    exact ⟨[], root, rights, rfl, by rwa [List.append_nil], hroot, hrights⟩
  case factorial =>
    intro left x ts htake ih vs root rights hvs hroot hrights e rest h
    rw [extend_factorial x ts htake] at h
    have hbinds := Binds.factorial none hvs fun o ho => hrights o ho _ rfl
    have htake' : ∀ o, some .factorial = some o → takesFirst left o = false := by
      rintro _ ⟨⟩
      exact htake
    obtain ⟨us, root', rights', rfl, hus, hends⟩ := ih _ _ _ hbinds htake' nofun e rest h
    rw [List.append_assoc] at hus
    exact ⟨.op .factorial :: us, root', rights', rfl, hus, hends⟩
  case binary =>
    intro left x b ts htake hright hrest vs root rights hvs hroot hrights e rest h
    rw [extend_binary x ts htake] at h
    obtain ⟨⟨y, mid⟩, hy, he⟩ := Option.bind_eq_some_iff.mp h
    obtain ⟨us, root', rights', rfl, hus, hroot', hrights'⟩ := hright y mid hy
    have hbinds := Binds.binary none b hvs (fun o ho => hrights o ho _ rfl) hus hroot'
    have htake' : ∀ o, some (Operator.binary b) = some o → takesFirst left o = false := by
      rintro _ ⟨⟩
      exact htake
    have hstops : ∀ o ∈ .binary b :: rights', Stops (some o) mid :=
      List.forall_mem_cons.mpr ⟨stops_of_climb hy, hrights'⟩
    obtain ⟨ws, root'', rights'', rfl, hws, hends⟩ :=
      hrest y _ hy _ _ _ hbinds htake' hstops e rest he
    rw [List.append_assoc] at hws
    exact ⟨.op (.binary b) :: us ++ ws, root'', rights'', by simp, hws, hends⟩

theorem binds_of_read {ts : List Token} {e : Expr} (h : read ts = some e) :
    ∃ root rights, Binds e ts root rights := by
  obtain ⟨us, root, rights, rfl, hus, -⟩ := bindsFrom_climb none ts e [] (read_eq_some_iff.mp h)
  exact ⟨root, rights, by rwa [List.append_nil]⟩

end Climbing

/-! ## What is grouped within -/

/-- Where an operator stands is determined by how many payloads are before it. -/
theorem eq_of_append_op {us vs us' vs' : List Token} {o o' : Operator}
    (h : us ++ .op o :: vs = us' ++ .op o' :: vs')
    (hlen : (payloads us).length = (payloads us').length) : us = us' ∧ vs = vs' := by
  rcases List.append_eq_append_iff.mp h with ⟨as, rfl, has⟩ | ⟨as, rfl, has⟩
  · cases as with
    | nil => exact ⟨(List.append_nil us).symm, (List.cons.inj has).2⟩
    | cons a as =>
      obtain ⟨rfl, -⟩ := List.cons.inj has
      simp at hlen
  · cases as with
    | nil => exact ⟨List.append_nil us', (List.cons.inj has).2.symm⟩
    | cons a as =>
      obtain ⟨rfl, -⟩ := List.cons.inj has
      simp at hlen

/-- A binary operator whose left side is balanced is not within a group. -/
theorem append_op_ne_group {us vs ts : List Token} {b : BinaryOperator} (hus : Balanced us)
    (hts : Balanced ts) : us ++ .op (.binary b) :: vs ≠ .opened :: ts ++ [.closed] := by
  intro h
  have hpair : [] ++ .opened :: ts ++ .closed :: [] = us ++ .op (.binary b) :: vs := h.symm
  rcases pair_beside_binary hts hus hpair with ⟨as, -, hnil⟩ | ⟨as, hnil, -⟩
  · cases as <;> cases hnil
  · cases us <;> cases hnil

namespace Binds

variable {m : Option Value} {x y : Expr} {ts us vs : List Token} {root : Option Operator}
  {rights : List Operator}

theorem of_sign {s : Sign} {o : Operator} (h : Binds (.sign m s x) (.op o :: ts) root rights) :
    ∃ root' rights', Binds x ts root' rights' ∧
      (∀ o, root' = some o → (Operator.sign s).reducesBefore o = false) ∧
      rights = .sign s :: rights' := by
  cases h with
  | sign m s hx hroot => exact ⟨_, _, hx, hroot, rfl⟩

theorem of_factorial {o : Operator} (h : Binds (.factorial m x) (ts ++ [.op o]) root rights) :
    ∃ root' rights', Binds x ts root' rights' ∧
      (∀ o ∈ rights', o.reducesBefore .factorial = true) ∧ root = some .factorial := by
  generalize hus : ts ++ [.op o] = us at h
  cases h with
  | group _ => cases (List.append_inj' hus rfl).2
  | factorial m hx hrights =>
    obtain ⟨rfl, -⟩ := List.append_inj' hus rfl
    exact ⟨_, _, hx, hrights, rfl⟩

theorem of_binary {b b' : BinaryOperator}
    (h : Binds (.binary m b x y) (us ++ .op (.binary b') :: vs) root rights) (hus : Balanced us)
    (hpayloads : payloads us = x.payloads) :
    ∃ root₁ rights₁ root₂ rights₂, Binds x us root₁ rights₁ ∧
      (∀ o ∈ rights₁, o.reducesBefore b = true) ∧ Binds y vs root₂ rights₂ ∧
      (∀ o, root₂ = some o → (Operator.binary b).reducesBefore o = false) ∧
      root = some (.binary b) ∧ rights = .binary b :: rights₂ := by
  generalize hts : us ++ .op (.binary b') :: vs = ts at h
  cases h with
  | group hinner => exact absurd hts (append_op_ne_group hus hinner.spells.balanced)
  | binary m b hx hrights hy hroot =>
    have hlen := congrArg List.length (hpayloads.trans hx.spells.payloads_eq.symm)
    obtain ⟨rfl, rfl⟩ := eq_of_append_op hts hlen
    exact ⟨_, _, _, _, hx, hrights, hy, hroot, rfl, rfl⟩

theorem of_group (h : Binds x (.opened :: ts ++ [.closed]) root rights) (hts : Balanced ts) :
    ∃ root' rights', Binds x ts root' rights' := by
  generalize hus : .opened :: ts ++ [.closed] = us at h
  cases h with
  | literal m l => cases l <;> cases hus
  | group hinner =>
    obtain ⟨hts', -⟩ := List.append_inj' hus rfl
    obtain ⟨-, rfl⟩ := List.cons.inj hts'
    exact ⟨_, _, hinner⟩
  | sign m s hx hroot => cases hus
  | factorial m hx hrights => cases (List.append_inj' hus rfl).2
  | binary m b hx hrights hy hroot =>
    exact absurd hus.symm (append_op_ne_group hx.spells.balanced hts)

end Binds

end DiceNotation
