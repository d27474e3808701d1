import DiceNotation.Proofs.Climbing.Written
import DiceNotation.Proofs.Grammar.Parentheses

/-!
# Putting tokens into a group

An expression is read in the same way wherever it stands in parentheses: what follows the closing
parenthesis plays no part. Conversely, what a group reads as was read from the tokens within it,
if these have no parenthesis of their own that belongs to the outside.

* `climb_append`: reading is the same if more tokens follow that extend nothing.
* `read_groupedWith`, `exists_read_of_groupedWith`: a group with one more operand after it.
-/

namespace DiceNotation.Climbing

/-! ## Tokens that follow -/

/-- Whether tokens extend an operand is decided by the first of them. -/
theorem extension?_cons_append (t : Token) (ts rest : List Token) :
    extension? (t :: ts ++ rest) = extension? (t :: ts) := by
  cases t with
  | op o => cases o <;> rfl
  | _ => rfl

theorem Stops.append {left : Option Operator} {ts rest : List Token} (h : Stops left ts)
    (hrest : extension? rest = none) : Stops left (ts ++ rest) := by
  intro next hnext
  cases ts with
  | nil =>
    rw [List.nil_append, hrest] at hnext
    cases hnext
  | cons t ts =>
    rw [extension?_cons_append] at hnext
    exact h next hnext

/-- What is found is also found with more tokens after it. -/
def FoundBefore (rest : List Token) (found found' : Option (Expr × List Token)) : Prop :=
  ∀ e mid, found = some (e, mid) → found' = some (e, mid ++ rest)

theorem foundBefore_operand {ts rest : List Token}
    (ih : ∀ left inner, inner.length < ts.length →
      FoundBefore rest (climb left inner) (climb left (inner ++ rest))) :
    FoundBefore rest (operand ts) (operand (ts ++ rest)) := by
  intro e mid h
  rcases operand_cases h with ⟨l, rfl, rfl⟩ | ⟨inner, rfl, hx⟩ | ⟨s, inner, x, rfl, hx, rfl⟩
  · cases l with
    | int n => exact operand_int n _
    | faces f => exact operand_faces f _
  · have hinner := ih none inner (Nat.lt_add_one _) e _ hx
    rw [List.cons_append, operand_opened, hinner]
    rfl
  · have hinner := ih (some (.sign s)) inner (Nat.lt_add_one _) x _ hx
    rw [List.cons_append, operand_sign, hinner]
    rfl

/-- Tokens that extend nothing have no part in what is read before them. -/
theorem climb_append {left : Option Operator} {ts rest : List Token}
    (hrest : extension? rest = none) :
    FoundBefore rest (climb left ts) (climb left (ts ++ rest)) := by
  refine (induction_on_reading
    (O := fun ts => FoundBefore rest (operand ts) (operand (ts ++ rest)))
    (C := fun left ts => FoundBefore rest (climb left ts) (climb left (ts ++ rest)))
    (E := fun left x ts => FoundBefore rest (extend left x ts) (extend left x (ts ++ rest)))
    (fun ts ih => foundBefore_operand ih) ?climb_of ?stops ?factorial ?binary).2.1 left ts
  case climb_of =>
    intro left ts hoperand hextend e mid h
    rw [climb_eq] at h ⊢
    obtain ⟨⟨x, after⟩, hx, he⟩ := Option.bind_eq_some_iff.mp h
    rw [hoperand x after hx]
    exact hextend x after hx e mid he
  case stops =>
    intro left x ts hs e mid h
    rw [extend_of_stops x hs] at h
    cases h
    exact extend_of_stops x (hs.append hrest)
  case factorial =>
    intro left x ts htake ih e mid h
    rw [extend_factorial x ts htake] at h
    rw [List.cons_append, extend_factorial x _ htake]
    exact ih e mid h
  case binary =>
    intro left x b ts htake hright hextend e mid h
    rw [extend_binary x ts htake] at h
    obtain ⟨⟨y, after⟩, hy, he⟩ := Option.bind_eq_some_iff.mp h
    rw [List.cons_append, extend_binary x _ htake, hright y after hy]
    exact hextend y after hy e mid he

/-! ## A group and one more operand -/

/-- Tokens in parentheses, followed by an operator and a literal. -/
def groupedWith (ts : List Token) (b : BinaryOperator) (l : Literal) : List Token :=
  .opened :: ts ++ [.closed, .op (.binary b), l.toToken]

theorem climb_literal (left : Option Operator) (l : Literal) :
    climb left [l.toToken] = some (.literal none l, []) := by
  rw [climb_eq]
  cases l with
  | int n =>
    rw [Literal.toToken, operand_int]
    exact extend_of_stops _ (stops_nil left)
  | faces f =>
    rw [Literal.toToken, operand_faces]
    exact extend_of_stops _ (stops_nil left)

/-- The group is the left operand. -/
theorem read_groupedWith {ts : List Token} {e : Expr} (h : read ts = some e) (b : BinaryOperator)
    (l : Literal) : read (groupedWith ts b l) = some (.binary none b e (.literal none l)) := by
  have hinner : climb none (ts ++ [.closed, .op (.binary b), l.toToken]) =
      some (e, [.closed, .op (.binary b), l.toToken]) :=
    climb_append rfl e [] (read_eq_some_iff.mp h)
  refine read_eq_some_iff.mpr ?_
  rw [groupedWith, List.cons_append, climb_eq, operand_opened, hinner, Option.bind_some,
    leaveGroup, Option.bind_some, extend_binary e _ rfl, climb_literal, Option.bind_some]
  exact extend_of_stops _ (stops_nil none)

/-- If all parentheses within the group belong together, the tokens within are an expression. -/
theorem exists_read_of_groupedWith {ts : List Token} {b : BinaryOperator} {l : Literal} {e : Expr}
    (hts : Balanced ts) (h : read (groupedWith ts b l) = some e) : ∃ x, read ts = some x := by
  have hsplit : [] ++ .opened :: ts ++ .closed :: [.op (.binary b), l.toToken] =
      groupedWith ts b l := rfl
  obtain ⟨x, -, hx⟩ := (spells_of_read h).exists_part hsplit hts
  exact exists_read_of_phrase hx.phrase

theorem balanced_of_read_groupedWith {ts : List Token} {b : BinaryOperator} {l : Literal}
    {e : Expr} (h : read (groupedWith ts b l) = some e) :
    Balanced (.opened :: ts ++ [.closed]) := by
  have hall := (spells_of_read h).balanced
  have hsplit : groupedWith ts b l =
      (.opened :: ts ++ [.closed]) ++ [.op (.binary b), l.toToken] := by
    rw [groupedWith, List.append_assoc]
    rfl
  rw [Balanced, hsplit, openAfter_append] at hall
  obtain ⟨n, hn, hafter⟩ := Option.bind_eq_some_iff.mp hall
  rw [Balanced, hn]
  cases l <;> exact hafter

end DiceNotation.Climbing
