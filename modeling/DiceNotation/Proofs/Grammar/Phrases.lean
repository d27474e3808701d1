import DiceNotation.Proofs.Climbing.Basic

/-!
# Phrases

The grammar of expressions says nothing about precedence, so a phrase may be grouped in many
ways. Reading chooses one of them:

* `spells_of_read`: an expression that was read groups the tokens it was read from.
* `exists_read_of_phrase`: every phrase is read.
-/

namespace DiceNotation

/-- The phrases of the notation. -/
inductive Phrase : List Token → Prop where
  | int (n : Int64) : Phrase [.int n]
  | faces (f : Faces) : Phrase [.faces f]
  | group {ts : List Token} : Phrase ts → Phrase (.opened :: ts ++ [.closed])
  | sign (s : Sign) {ts : List Token} : Phrase ts → Phrase (.op (.sign s) :: ts)
  | factorial {ts : List Token} : Phrase ts → Phrase (ts ++ [.op .factorial])
  | binary (b : BinaryOperator) {us vs : List Token} :
      Phrase us → Phrase vs → Phrase (us ++ .op (.binary b) :: vs)

/-- A phrase together with the expression that one of its groupings is. -/
inductive Spells : Expr → List Token → Prop where
  | literal (m : Option Value) (l : Literal) : Spells (.literal m l) [l.toToken]
  | group {e : Expr} {ts : List Token} : Spells e ts → Spells e (.opened :: ts ++ [.closed])
  | sign (m : Option Value) (s : Sign) {x : Expr} {ts : List Token} :
      Spells x ts → Spells (.sign m s x) (.op (.sign s) :: ts)
  | factorial (m : Option Value) {x : Expr} {ts : List Token} :
      Spells x ts → Spells (.factorial m x) (ts ++ [.op .factorial])
  | binary (m : Option Value) (b : BinaryOperator) {x y : Expr} {us vs : List Token} :
      Spells x us → Spells y vs → Spells (.binary m b x y) (us ++ .op (.binary b) :: vs)

theorem Spells.phrase {e : Expr} {ts : List Token} (h : Spells e ts) : Phrase ts := by
  induction h with
  | literal m l => cases l with
    | int n => exact .int n
    | faces f => exact .faces f
  | group _ ih => exact .group ih
  | sign m s _ ih => exact .sign s ih
  | factorial m _ ih => exact .factorial ih
  | binary m b _ _ ihx ihy => exact .binary b ihx ihy

namespace Climbing

/-! ## What is read is a grouping -/

/-- The tokens that were read, as a grouping of the expression. -/
def ReadFrom (ts : List Token) (found : Option (Expr × List Token)) : Prop :=
  ∀ e rest, found = some (e, rest) → ∃ us, ts = us ++ rest ∧ Spells e us

theorem readFrom_operand {ts : List Token}
    (ih : ∀ left inner, inner.length < ts.length → ReadFrom inner (climb left inner)) :
    ReadFrom ts (operand ts) := by
  intro e rest h
  rcases operand_cases h with ⟨l, rfl, rfl⟩ | ⟨inner, rfl, hx⟩ | ⟨s, inner, x, rfl, hx, rfl⟩
  · exact ⟨[l.toToken], rfl, .literal none l⟩
  · obtain ⟨us, rfl, hus⟩ := ih none inner (Nat.lt_add_one _) e _ hx
    exact ⟨.opened :: us ++ [.closed], by simp, .group hus⟩
  · obtain ⟨us, rfl, hus⟩ := ih (some (.sign s)) inner (Nat.lt_add_one _) x _ hx
    exact ⟨.op (.sign s) :: us, rfl, .sign none s hus⟩

theorem readFrom_climb (left : Option Operator) (ts : List Token) :
    ReadFrom ts (climb left ts) := by
  -- extending turns a grouping of the operand into one of the whole
  refine (induction_on_reading (O := fun ts => ReadFrom ts (operand ts))
    (C := fun left ts => ReadFrom ts (climb left ts))
    (E := fun left x ts => ∀ vs, Spells x vs → ∀ e rest, extend left x ts = some (e, rest) →
      ∃ us, ts = us ++ rest ∧ Spells e (vs ++ us))
    (fun ts ih => readFrom_operand ih) ?climb_of ?stops ?factorial ?binary).2.1 left ts
  case climb_of =>
    intro left ts hoperand hextend e rest h
    rw [climb_eq] at h
    obtain ⟨⟨x, mid⟩, hx, he⟩ := Option.bind_eq_some_iff.mp h
    obtain ⟨us, rfl, hus⟩ := hoperand x mid hx
    obtain ⟨vs, rfl, hvs⟩ := hextend x mid hx us hus e rest he
    exact ⟨us ++ vs, (List.append_assoc us vs rest).symm, hvs⟩
  case stops =>
    intro left x ts hs vs hvs e rest h
    rw [extend_of_stops x hs] at h
    cases h
    exact ⟨[], rfl, by rwa [List.append_nil]⟩
  case factorial =>
    intro left x ts htake ih vs hvs e rest h
    rw [extend_factorial x ts htake] at h
    obtain ⟨us, rfl, hus⟩ := ih _ (.factorial none hvs) e rest h
    rw [List.append_assoc] at hus
    exact ⟨.op .factorial :: us, rfl, hus⟩
  case binary =>
    intro left x b ts htake hright hrest vs hvs e rest h
    rw [extend_binary x ts htake] at h
    obtain ⟨⟨y, mid⟩, hy, he⟩ := Option.bind_eq_some_iff.mp h
    obtain ⟨us, rfl, hus⟩ := hright y mid hy
    obtain ⟨ws, rfl, hws⟩ := hrest y _ hy _ (.binary none b hvs hus) e rest he
    rw [List.append_assoc] at hws
    exact ⟨.op (.binary b) :: us ++ ws, by simp, hws⟩

theorem spells_of_read {ts : List Token} {e : Expr} (h : read ts = some e) : Spells e ts := by
  obtain ⟨us, rfl, hus⟩ := readFrom_climb none ts e [] (read_eq_some_iff.mp h)
  rwa [List.append_nil]

/-! ## Every phrase is read -/

/-- Tokens in which operands and operators alternate. The flag tells whether an operand comes
first. -/
inductive Alternates : Bool → List Token → Prop where
  | done : Alternates false []
  | int (n : Int64) {ts : List Token} : Alternates false ts → Alternates true (.int n :: ts)
  | faces (f : Faces) {ts : List Token} : Alternates false ts → Alternates true (.faces f :: ts)
  | group {us vs : List Token} : Alternates true us → Alternates false vs →
      Alternates true (.opened :: us ++ .closed :: vs)
  | sign (s : Sign) {ts : List Token} : Alternates true ts → Alternates true (.op (.sign s) :: ts)
  | factorial {ts : List Token} : Alternates false ts → Alternates false (.op .factorial :: ts)
  | binary (b : BinaryOperator) {ts : List Token} : Alternates true ts →
      Alternates false (.op (.binary b) :: ts)

theorem Alternates.append {first : Bool} {us vs : List Token} (hus : Alternates first us)
    (hvs : Alternates false vs) : Alternates first (us ++ vs) := by
  induction hus with
  | done => exact hvs
  | int n _ ih => exact .int n ih
  | faces f _ ih => exact .faces f ih
  | @group us ws hinner _ _ ih =>
    have h := Alternates.group hinner ih
    rwa [← List.cons_append, ← List.append_assoc] at h
  | sign s _ ih => exact .sign s ih
  | factorial _ ih => exact .factorial ih
  | binary b _ ih => exact .binary b ih

theorem alternates_of_phrase {ts : List Token} (h : Phrase ts) : Alternates true ts := by
  induction h with
  | int n => exact .int n .done
  | faces f => exact .faces f .done
  | group _ ih => exact .group ih .done
  | sign s _ ih => exact .sign s ih
  | factorial _ ih => exact ih.append (.factorial .done)
  | binary b _ _ ihx ihy => exact ihx.append (.binary b ihy)

theorem Alternates.eq_nil_of_stops {ts rest : List Token} (h : Alternates false ts)
    (hs : Stops none (ts ++ rest)) : ts = [] := by
  cases h with
  | done => rfl
  | factorial _ => cases hs _ rfl
  | binary b _ => cases hs _ rfl

/-- What may stand after a phrase: nothing or a closing parenthesis. -/
def EndsPhrase (rest : List Token) : Prop := rest = [] ∨ ∃ ws, rest = .closed :: ws

/-- Reading stops among the alternating tokens before the rest, or at their end. -/
def ReadsTo (rest : List Token) (found : Option (Expr × List Token)) : Prop :=
  ∃ e vs, found = some (e, vs ++ rest) ∧ Alternates false vs

theorem readsTo_operand {us rest : List Token} (hus : Alternates true us)
    (ih : ∀ left vs ws, (vs ++ ws).length < (us ++ rest).length → EndsPhrase ws →
      Alternates true vs → ReadsTo ws (climb left (vs ++ ws)))
    (hrest : EndsPhrase rest) : ReadsTo rest (operand (us ++ rest)) := by
  cases hus with
  | int n hts => exact ⟨_, _, operand_int n _, hts⟩
  | faces f hts => exact ⟨_, _, operand_faces f _, hts⟩
  | @group inner vs hinner hvs =>
    have happ : .opened :: inner ++ .closed :: vs ++ rest =
        .opened :: (inner ++ .closed :: (vs ++ rest)) := by simp
    rw [happ] at ih ⊢
    obtain ⟨e, ws, he, hws⟩ := ih none inner (.closed :: (vs ++ rest)) (Nat.lt_add_one _)
      (.inr ⟨_, rfl⟩) hinner
    -- with nothing on the left the whole group is read
    rw [hws.eq_nil_of_stops (stops_of_climb he)] at he
    refine ⟨e, vs, ?_, hvs⟩
    rw [operand_opened, he]
    rfl
  | @sign s ts hts =>
    obtain ⟨x, vs, hx, hvs⟩ := ih (some (.sign s)) ts rest (Nat.lt_add_one _) hrest hts
    refine ⟨.sign none s x, vs, ?_, hvs⟩
    rw [List.cons_append, operand_sign, hx]
    rfl

theorem readsTo_climb (left : Option Operator) {us rest : List Token}
    (hrest : EndsPhrase rest) (hus : Alternates true us) :
    ReadsTo rest (climb left (us ++ rest)) := by
  refine (induction_on_reading
    (O := fun ts => ∀ us rest, ts = us ++ rest → EndsPhrase rest → Alternates true us →
      ReadsTo rest (operand ts))
    (C := fun left ts => ∀ us rest, ts = us ++ rest → EndsPhrase rest → Alternates true us →
      ReadsTo rest (climb left ts))
    (E := fun left x ts => ∀ us rest, ts = us ++ rest → EndsPhrase rest → Alternates false us →
      ReadsTo rest (extend left x ts))
    ?operand_of ?climb_of ?stops ?factorial ?binary).2.1 left _ us rest rfl hrest hus
  case operand_of =>
    intro ts ih us rest hts hrest hus
    subst hts
    exact readsTo_operand hus (fun left vs ws hlt hws hvs => ih left _ hlt vs ws rfl hws hvs)
      hrest
  case climb_of =>
    intro left ts hoperand hextend us rest hts hrest hus
    obtain ⟨x, vs, hx, hvs⟩ := hoperand us rest hts hrest hus
    rw [climb_eq, hx]
    exact hextend x _ hx vs rest rfl hrest hvs
  case stops =>
    intro left x ts hs us rest hts hrest hus
    subst hts
    exact ⟨x, us, extend_of_stops x hs, hus⟩
  case factorial =>
    intro left x ts htake ih us rest hts hrest hus
    rw [extend_factorial x ts htake]
    cases hus with
    | done => rcases hrest with rfl | ⟨ws, rfl⟩ <;> cases hts
    | @factorial us hus =>
      cases hts
      exact ih us rest rfl hrest hus
    | binary b hus => cases hts
  case binary =>
    intro left x b ts htake hright hextend us rest hts hrest hus
    rw [extend_binary x ts htake]
    cases hus with
    | done => rcases hrest with rfl | ⟨ws, rfl⟩ <;> cases hts
    | factorial hus => cases hts
    | binary b hus =>
      cases hts
      obtain ⟨y, vs, hy, hvs⟩ := hright _ rest rfl hrest hus
      rw [hy]
      exact hextend y _ hy vs rest rfl hrest hvs

theorem exists_read_of_phrase {ts : List Token} (h : Phrase ts) : ∃ e, read ts = some e := by
  obtain ⟨e, vs, he, hvs⟩ := readsTo_climb none (.inl rfl) (alternates_of_phrase h)
  rw [hvs.eq_nil_of_stops (stops_of_climb he), List.append_nil] at he
  exact ⟨e, read_eq_some_iff.mpr he⟩

end Climbing

end DiceNotation
