import DiceNotation.Expr.Reading
import DiceNotation.Token.Reading

/-!
# Signs

Whether `+` and `-` are signs is decided twice: from the token before while a text is cut, and from
a flag while the tokens are read. Both say the same after every token, so that the reader never
meets a sign where it waits for an operator.

* `expectsOperand_pushAll`: the flag of the reader is what the last token tells.
* `signsInPlace_ofText`: the signs of a text stand where operands begin.
* `signs_agree`: the tokens of a text are never refused for an operator that was not expected.
-/

namespace DiceNotation

/-! ## The flag -/

namespace Reader

theorem expectsOperand_pushOperator {r r' : Reader} {i : Nat} {op : Operator}
    (h : r.pushOperator i op = .ok r') : r'.expectsOperand = (op.arity != .after) := by
  unfold pushOperator at h
  split at h
  · next harity hflag =>
    cases h
    rw [harity]
    exact hflag
  · cases h
  · cases h
  · next harity hflag =>
    rw [harity]
    split at h
    · cases h
    · split at h
      · cases h
      · cases h
        exact hflag
  · next harity hflag =>
    rw [harity]
    split at h
    · cases h
    · cases h
      rfl

theorem expectsOperand_closeGroup {r r' : Reader} {i : Nat} (h : r.closeGroup i = .ok r') :
    r'.expectsOperand = false := by
  unfold closeGroup at h
  split at h
  · split at h <;> cases h
  · next hflag =>
    split at h
    · cases h
    · cases h
      exact Bool.eq_false_iff.mpr hflag

/-- After a token has been read, an operand is expected just where a sign may follow it. -/
theorem expectsOperand_push {r r' : Reader} {i : Nat} {t : Token} (h : r.push i t = .ok r') :
    r'.expectsOperand = Token.isSignPosition (some t) := by
  cases t with
  | int n =>
    simp only [push] at h
    split at h
    · cases h
      rfl
    · cases h
  | faces f =>
    simp only [push] at h
    split at h
    · cases h
      rfl
    · cases h
  | opened =>
    simp only [push] at h
    split at h
    · next hflag =>
      cases h
      exact hflag
    · cases h
  | closed => exact expectsOperand_closeGroup h
  | op o => exact expectsOperand_pushOperator h

theorem expectsOperand_pushAll {r r' : Reader} {i : Nat} {ts : List Token}
    {previous : Option Token} (hr : r.expectsOperand = Token.isSignPosition previous)
    (h : r.pushAll i ts = .ok r') :
    r'.expectsOperand = Token.isSignPosition (ts.getLast?.or previous) := by
  induction ts generalizing r i previous with
  | nil =>
    cases h
    exact hr
  | cons t ts ih =>
    rw [pushAll] at h
    cases hpush : r.push i t with
    | error c =>
      rw [hpush] at h
      cases h
    | ok mid =>
      rw [hpush] at h
      rw [List.getLast?_cons, Option.some_or, ← Option.or_some]
      exact ih (expectsOperand_push hpush) h

/-! ## Refusals -/

/-- Whether tokens are refused for an operator where an operator was not expected. -/
def RefusesOperator (c : ParseError) : Prop := ∃ i o, c = .unexpectedToken i (.op o)

/-- A failure, if there is one, is not the refusal of an operator. -/
def TakesOperators {α : Type} (outcome : Except ParseError α) : Prop :=
  ∀ c, outcome = .error c → ¬RefusesOperator c

theorem takesOperators_ok {α : Type} (a : α) : TakesOperators (.ok a) := nofun

theorem takesOperators_error {α : Type} {c : ParseError} (h : ¬RefusesOperator c) :
    TakesOperators (.error c : Except ParseError α) := by
  intro c' hc
  cases hc
  exact h

theorem takesOperators_deepen (i : Nat) (e : Expr) (depth : Nat) (os : List Operand) :
    TakesOperators (deepen i e depth os) := by
  unfold deepen
  split
  · exact takesOperators_error nofun
  · exact takesOperators_ok _

theorem takesOperators_reduce (op : Operator) (i : Nat) (os : List Operand) :
    TakesOperators (reduce op i os) := by
  unfold reduce
  split
  · exact takesOperators_deepen _ _ _ _
  · exact takesOperators_deepen _ _ _ _
  · exact takesOperators_deepen _ _ _ _
  · exact takesOperators_error nofun

theorem takesOperators_reduceBefore (next : Operator) (ps : List Pending) (os : List Operand) :
    TakesOperators (reduceBefore next ps os) := by
  induction ps generalizing os with
  | nil => exact takesOperators_ok _
  | cons p ps ih =>
    cases p with
    | group i => exact takesOperators_ok _
    | op o i =>
      rw [reduceBefore]
      split
      · split
        · next hc => exact takesOperators_error (takesOperators_reduce o i os _ hc)
        · exact ih _
      · exact takesOperators_ok _

theorem takesOperators_reduceGroup (index : Nat) (ps : List Pending) (os : List Operand) :
    TakesOperators (reduceGroup index ps os) := by
  induction ps generalizing os with
  | nil => exact takesOperators_error nofun
  | cons p ps ih =>
    cases p with
    | group i => exact takesOperators_ok _
    | op o i =>
      rw [reduceGroup]
      split
      · next hc => exact takesOperators_error (takesOperators_reduce o i os _ hc)
      · exact ih _

theorem takesOperators_reduceAll (ps : List Pending) (os : List Operand) :
    TakesOperators (reduceAll ps os) := by
  induction ps generalizing os with
  | nil => exact takesOperators_ok _
  | cons p ps ih =>
    cases p with
    | group i => exact takesOperators_error nofun
    | op o i =>
      rw [reduceAll]
      split
      · next hc => exact takesOperators_error (takesOperators_reduce o i os _ hc)
      · exact ih _

theorem takesOperators_pushOperator {r : Reader} {op : Operator} (i : Nat)
    (h : op.arity = .before → r.expectsOperand = true) :
    TakesOperators (r.pushOperator i op) := by
  unfold pushOperator
  split
  · exact takesOperators_ok _
  · next harity hflag =>
    rw [h harity] at hflag
    cases hflag
  · exact takesOperators_error nofun
  · split
    · next hc => exact takesOperators_error (takesOperators_reduceBefore op _ _ _ hc)
    · split
      · next hc => exact takesOperators_error (takesOperators_reduce op i _ _ hc)
      · exact takesOperators_ok _
  · split
    · next hc => exact takesOperators_error (takesOperators_reduceBefore op _ _ _ hc)
    · exact takesOperators_ok _

theorem takesOperators_closeGroup (r : Reader) (i : Nat) : TakesOperators (r.closeGroup i) := by
  unfold closeGroup
  split
  · split
    · exact takesOperators_error nofun
    · exact takesOperators_error nofun
    · exact takesOperators_error nofun
  · split
    · next hc => exact takesOperators_error (takesOperators_reduceGroup i _ _ _ hc)
    · exact takesOperators_ok _

/-- Only a sign can be an operator that was not expected. -/
theorem takesOperators_push {r : Reader} {t : Token} (i : Nat)
    (h : ∀ s, t = .op (.sign s) → r.expectsOperand = true) : TakesOperators (r.push i t) := by
  cases t with
  | int n =>
    simp only [push]
    split
    · exact takesOperators_ok _
    · exact takesOperators_error nofun
  | faces f =>
    simp only [push]
    split
    · exact takesOperators_ok _
    · exact takesOperators_error nofun
  | opened =>
    simp only [push]
    split
    · exact takesOperators_ok _
    · exact takesOperators_error nofun
  | closed => exact takesOperators_closeGroup r i
  | op o =>
    refine takesOperators_pushOperator i fun harity => ?_
    cases o with
    | sign s => exact h s rfl
    | factorial => cases harity
    | binary b => cases harity

theorem takesOperators_finish (r : Reader) : TakesOperators r.finish := by
  unfold finish
  split
  · exact takesOperators_error nofun
  · exact takesOperators_error nofun
  · split
    · next hc => exact takesOperators_error (takesOperators_reduceAll _ _ _ hc)
    · exact takesOperators_ok _
    · exact takesOperators_ok _
    · exact takesOperators_error nofun

end Reader

/-! ## The signs of a text -/

namespace Token

/-- Every sign among the tokens stands where an operand begins, the first token after
`previous`. -/
def SignsInPlace (previous : Option Token) : List Token → Prop
  | [] => True
  | t :: ts => (∀ s, t = .op (.sign s) → isSignPosition previous = true) ∧
      SignsInPlace (some t) ts

theorem arity_spelling : ∀ e ∈ Operator.spellings, e.2.arity ≠ .before := by decide

end Token

namespace Lexeme

/-- The lexeme is not a sign in an operator's place: the table of spellings has none. -/
def SpellsNoSign (x : Lexeme) : Prop := ∀ s w, x ≠ op (.sign s) w

theorem spellsNoSign_of_operator? {cs rest : List Char} {x : Lexeme}
    (h : operator? cs = some (x, rest)) : x.SpellsNoSign := by
  have harity {w : List Char} {o : Operator} (ho : Operator.spellings.lookup w = some o) :
      o.arity ≠ .before := by
    obtain ⟨us, vs, htable, -⟩ := List.lookup_eq_some_iff.mp ho
    exact Token.arity_spelling (w, o) (htable ▸ by simp)
  unfold operator? at h
  split at h
  · next o ho =>
    cases h
    rintro s w hs
    cases hs
    exact harity ho rfl
  · split at h
    · next o ho =>
      cases h
      rintro s w hs
      cases hs
      exact harity ho rfl
    · cases h

theorem spellsNoSign_next (c : Char) (cs : List Char) : (next c cs).1.SpellsNoSign := by
  intro s w hs
  unfold next at hs
  split at hs
  · cases hs
  split at hs
  · cases hs
  split at hs
  · unfold list at hs
    split at hs <;> cases hs
  iterate 5 cases hs
  cases h : operator? (c :: cs) with
  | none =>
    rw [h] at hs
    cases hs
  | some found =>
    rw [h] at hs
    exact spellsNoSign_of_operator? h s w hs

theorem spellsNoSign_ofText (cs : List Char) : ∀ x ∈ ofText cs, x.SpellsNoSign := by
  induction cs using ofText.induct with
  | case1 =>
    rw [ofText]
    exact fun x hx => absurd hx List.not_mem_nil
  | case2 c cs ih =>
    rw [ofText]
    exact List.forall_mem_cons.mpr ⟨spellsNoSign_next c cs, ih⟩

/-- A lexeme becomes a sign only where an operand begins. -/
theorem isSignPosition_of_token {x : Lexeme} {position : Nat} {previous : Option Token} {s : Sign}
    (hx : x.SpellsNoSign) (h : x.token position previous = .ok (some (.op (.sign s)))) :
    Token.isSignPosition previous = true := by
  cases hprevious : Token.isSignPosition previous with
  | true => rfl
  | false =>
    simp only [token, hprevious] at h
    cases x with
    | op o w =>
      cases h
      exact absurd rfl (hx s w)
    | digits cs =>
      simp only at h
      split at h <;> cases h
    | faces inner =>
      simp only at h
      split at h <;> cases h
    | fudge =>
      simp only at h
      split at h <;> cases h
    | blank | unclosed | opened | closed | plus | minus | unknown => cases h

end Lexeme

namespace Token

theorem signsInPlace_ofLexemes {xs : List Lexeme} {position : Nat} {previous : Option Token}
    {ts : List Token} (hxs : ∀ x ∈ xs, x.SpellsNoSign)
    (h : ofLexemes position previous xs = .ok ts) : SignsInPlace previous ts := by
  induction xs generalizing position previous ts with
  | nil =>
    cases h
    trivial
  | cons x xs ih =>
    obtain ⟨hx, hrest⟩ := List.forall_mem_cons.mp hxs
    simp only [ofLexemes] at h
    split at h
    · cases h
    · exact ih hrest h
    · next t ht =>
      cases hus : ofLexemes (position + byteLength x.text) (some t) xs with
      | error c =>
        rw [hus] at h
        cases h
      | ok us =>
        rw [hus] at h
        cases h
        refine ⟨fun s hs => ?_, ih hrest hus⟩
        subst hs
        exact Lexeme.isSignPosition_of_token hx ht

theorem signsInPlace_ofText {cs : List Char} {ts : List Token} (h : ofText cs = .ok ts) :
    SignsInPlace none ts :=
  signsInPlace_ofLexemes (Lexeme.spellsNoSign_ofText cs) h

end Token

/-! ## Both together -/

namespace Reader

theorem takesOperators_pushAll {r : Reader} {i : Nat} {ts : List Token} {previous : Option Token}
    (hr : r.expectsOperand = Token.isSignPosition previous)
    (hts : Token.SignsInPlace previous ts) : TakesOperators (r.pushAll i ts) := by
  induction ts generalizing r i previous with
  | nil => exact takesOperators_ok _
  | cons t ts ih =>
    obtain ⟨ht, hrest⟩ := hts
    rw [pushAll]
    split
    · next hc => exact takesOperators_error (takesOperators_push i (hr ▸ ht) _ hc)
    · next hpush => exact ih (expectsOperand_push hpush) hrest

theorem takesOperators_ofTokens {ts : List Token} (h : Token.SignsInPlace none ts) :
    TakesOperators (Expr.ofTokens ts) := by
  unfold Expr.ofTokens
  split
  · next hc => exact takesOperators_error (takesOperators_pushAll rfl h _ hc)
  · exact takesOperators_finish _

/-- A sign may stand after the tokens that were read just where the reader expects an operand. So
the tokens of a text are never refused for an operator that was not expected. -/
theorem signs_agree {cs : List Char} {ts : List Token} (h : Token.ofText cs = .ok ts) :
    (∀ k ≤ ts.length, ∀ r, start.pushAll 0 (ts.take k) = .ok r →
      Token.isSignPosition (ts.take k).getLast? = r.expectsOperand) ∧
    ∀ i o, Expr.ofTokens ts ≠ .error (.unexpectedToken i (.op o)) := by
  constructor
  · intro k _ r hr
    have hstart : start.expectsOperand = Token.isSignPosition none := rfl
    have hflag := expectsOperand_pushAll hstart hr
    rw [hflag, Option.or_none]
  · intro i o hrefused
    have htakes := takesOperators_ofTokens (Token.signsInPlace_ofText h)
    exact htakes _ hrefused ⟨i, o, rfl⟩

/-- In `-2!--(+3)` only the `-` after the factorial is subtraction. -/
theorem signs_agree_after_factorial :
    let ts : List Token := [.op (.sign .minus), .int 2, .op .factorial, .op .minus,
      .op (.sign .minus), .opened, .op (.sign .plus), .int 3, .closed]
    Token.ofText "-2!--(+3)".toList = .ok ts ∧
      (∃ r, start.pushAll 0 (ts.take 4) = .ok r ∧
        Token.isSignPosition (ts.take 4).getLast? = r.expectsOperand) ∧
      ∀ i o, Expr.ofTokens ts ≠ .error (.unexpectedToken i (.op o)) := by
  intro ts
  have hread : Token.ofText "-2!--(+3)".toList = .ok ts := (Token.ofText_eq_cut _).trans rfl
  obtain ⟨hflag, htakes⟩ := signs_agree hread
  exact ⟨hread, ⟨_, rfl, hflag 4 (by decide) _ rfl⟩, htakes⟩

end Reader

end DiceNotation
