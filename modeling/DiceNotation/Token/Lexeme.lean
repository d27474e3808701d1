import DiceNotation.Operator.Basic

/-!
# Lexemes

The first cut of a text: runs of blanks and of digits, bracketed lists, and the longest mark or
operator that fits. What fits nothing is a lexeme of one character, so nothing is lost:

* `flatMap_text_ofText`: the lexemes of a text are the text.
* `ofText_eq_cut`: they are found in as many steps as there are characters.
-/

namespace DiceNotation

inductive Lexeme where
  | blank (cs : List Char)
  | digits (cs : List Char)
  | faces (inner : List Char)
  | unclosed (inner : List Char)
  | fudge
  | opened
  | closed
  | plus
  | minus
  | op (o : Operator) (spelling : List Char)
  | unknown (c : Char)

/-- How operators are spelled in a text, second names included. The signs, addition and
subtraction are told apart by their place and are not in the table. -/
def Operator.spellings : List (List Char × Operator) :=
  (all.filterMap fun op =>
    if op.symbol = "+" ∨ op.symbol = "-" then none else some (op.code.toList, op)) ++
  aliases.map fun entry => (entry.1.toList, entry.2)

namespace Lexeme

/-- The characters that only separate. -/
def isSeparator (c : Char) : Bool := c == ' ' || c == '\t' || c == '\r' || c == '\n'

/-- The text of a lexeme. -/
def text : Lexeme → List Char
  | blank cs | digits cs => cs
  | faces inner => '[' :: inner ++ [']']
  | unclosed inner => '[' :: inner
  | fudge => ['F']
  | opened => ['(']
  | closed => [')']
  | plus => ['+']
  | minus => ['-']
  | op _ spelling => spelling
  | unknown c => [c]

/-- The operator that a text begins with, in its longest spelling, and the rest. -/
def operator? (cs : List Char) : Option (Lexeme × List Char) :=
  match Operator.spellings.lookup (cs.take 2) with
  | some o => some (op o (cs.take 2), cs.drop 2)
  | none =>
    match Operator.spellings.lookup (cs.take 1) with
    | some o => some (op o (cs.take 1), cs.drop 1)
    | none => none

/-- The bracketed list that follows a `[`, and the rest. -/
def list (cs : List Char) : Lexeme × List Char :=
  let inner := cs.takeWhile (· != ']')
  match cs.dropWhile (· != ']') with
  | [] => (unclosed inner, [])
  | _ :: rest => (faces inner, rest)

/-- The first lexeme of the text `c :: cs`, and the rest. -/
def next (c : Char) (cs : List Char) : Lexeme × List Char :=
  if isSeparator c then (blank (c :: cs.takeWhile isSeparator), cs.dropWhile isSeparator)
  else if c.isDigit then (digits (c :: cs.takeWhile Char.isDigit), cs.dropWhile Char.isDigit)
  else
    match c with
    | '[' => list cs
    | 'F' => (fudge, cs)
    | '(' => (opened, cs)
    | ')' => (closed, cs)
    | '+' => (plus, cs)
    | '-' => (minus, cs)
    | _ => (operator? (c :: cs)).getD (unknown c, cs)

/-! ## Nothing is lost -/

theorem text_append_of_operator? {cs rest : List Char} {x : Lexeme}
    (h : operator? cs = some (x, rest)) : x.text ++ rest = cs ∧ x.text ≠ [] := by
  have hne : Operator.spellings.lookup [] = none := by decide
  unfold operator? at h
  split at h
  · next o ho =>
    obtain ⟨rfl, rfl⟩ := Prod.mk.inj (Option.some.inj h)
    refine ⟨List.take_append_drop 2 cs, fun he => ?_⟩
    rw [show cs.take 2 = [] from he, hne] at ho
    cases ho
  · split at h
    · next o ho =>
      obtain ⟨rfl, rfl⟩ := Prod.mk.inj (Option.some.inj h)
      refine ⟨List.take_append_drop 1 cs, fun he => ?_⟩
      rw [show cs.take 1 = [] from he, hne] at ho
      cases ho
    · cases h

theorem text_append_list (cs : List Char) : (list cs).1.text ++ (list cs).2 = '[' :: cs := by
  have hsplit := List.takeWhile_append_dropWhile (p := (· != ']')) (l := cs)
  unfold list
  split
  · next h => rw [h, List.append_nil] at hsplit; simp [text, hsplit]
  · next c rest h =>
    have hc : c = ']' := by
      have := List.head?_dropWhile_not (· != ']') cs
      simpa [h] using this
    subst hc
    rw [h] at hsplit
    simpa [text] using hsplit

/-- The first lexeme and the rest are the text. -/
theorem text_append_next (c : Char) (cs : List Char) :
    (next c cs).1.text ++ (next c cs).2 = c :: cs := by
  unfold next
  split
  · simp [text, List.takeWhile_append_dropWhile]
  split
  · simp [text, List.takeWhile_append_dropWhile]
  split
  · exact text_append_list cs
  iterate 5 rfl
  cases h : operator? (c :: cs) with
  | none => rfl
  | some found => exact (text_append_of_operator? h).1

theorem text_next_ne_nil (c : Char) (cs : List Char) : (next c cs).1.text ≠ [] := by
  unfold next
  split
  · exact List.cons_ne_nil _ _
  split
  · exact List.cons_ne_nil _ _
  split
  · unfold list
    split <;> exact List.cons_ne_nil _ _
  iterate 5 exact List.cons_ne_nil _ _
  cases h : operator? (c :: cs) with
  | none => exact List.cons_ne_nil _ _
  | some found => exact (text_append_of_operator? h).2

theorem length_next_lt (c : Char) (cs : List Char) :
    (next c cs).2.length < (c :: cs).length := by
  have h := congrArg List.length (text_append_next c cs)
  have hpos := List.length_pos_iff.mpr (text_next_ne_nil c cs)
  simp only [List.length_append] at h
  omega

/-! ## The lexemes of a text -/

def ofText : List Char → List Lexeme
  | [] => []
  | c :: cs => (next c cs).1 :: ofText (next c cs).2
termination_by cs => cs.length
decreasing_by exact length_next_lt c cs

theorem flatMap_text_ofText (cs : List Char) : (ofText cs).flatMap text = cs := by
  induction cs using ofText.induct with
  | case1 => simp [ofText]
  | case2 c cs ih => rw [ofText, List.flatMap_cons, ih, text_append_next]

/-- The first `n` lexemes of a text at most. -/
def cut : Nat → List Char → List Lexeme
  | 0, _ => []
  | _ + 1, [] => []
  | n + 1, c :: cs => (next c cs).1 :: cut n (next c cs).2

/-- A text has no more lexemes than characters. -/
theorem ofText_eq_cut {n : Nat} {cs : List Char} (h : cs.length ≤ n) : ofText cs = cut n cs := by
  induction n generalizing cs with
  | zero => rw [List.eq_nil_of_length_eq_zero (Nat.le_zero.mp h), ofText, cut]
  | succ n ih =>
    cases cs with
    | nil => rw [ofText, cut]
    | cons c cs =>
      have hlt := Nat.lt_of_lt_of_le (length_next_lt c cs) h
      rw [ofText, cut, ih (Nat.le_of_lt_succ hlt)]

end Lexeme

end DiceNotation
