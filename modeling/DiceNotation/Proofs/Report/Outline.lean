import DiceNotation.Expr.Written

/-!
# Outlines

An outline is an expression in which some parts are closed up: such a part has no operator that
could be seen from outside, so it is written without parentheses. Everything that is written about
expressions is the text of an outline.

* `Expr.render_eq`: a text that shows some nodes as atoms is the text of the outline in which
  these are closed up.
* `Expr.text_eq_outline`: the text of an expression is that of its outline with all parts open.
* `Expr.outline_of_map_eq`: what the closed parts of an outline are.
-/

namespace DiceNotation

/-- Expressions with closed parts. -/
inductive Outline (α : Type) where
  | part (a : α)
  | literal (l : Literal)
  | sign (s : Sign) (right : Outline α)
  | factorial (left : Outline α)
  | binary (b : BinaryOperator) (left right : Outline α)

namespace Outline

variable {α β : Type}

def map (g : α → β) : Outline α → Outline β
  | part a => part (g a)
  | literal l => literal l
  | sign s x => sign s (x.map g)
  | factorial x => factorial (x.map g)
  | binary b x y => binary b (x.map g) (y.map g)

/-- The operator at the root, if the root is not closed up. -/
def op? : Outline α → Option Operator
  | part _ | literal _ => none
  | sign s _ => some (.sign s)
  | factorial _ => some .factorial
  | binary b _ _ => some (.binary b)

/-- Whether the outline is the fudge die. -/
def isFudge : Outline α → Bool
  | literal l => l.isFudge
  | _ => false

/-- The text of an operand with that text beside an operator: the fudge die is short where it is
rolled, and an operand that would be torn apart gets parentheses. -/
def textBeside (op : Operator) (side : Side) (operand : Outline α) (text : String) : String :=
  if op.isDice && side == .right && operand.isFudge then "F"
  else if op.encloses side operand.op? then "(" ++ text ++ ")"
  else text

/-- The text of an outline, given the texts of the closed parts. -/
def text : Outline String → String
  | part s => s
  | literal l => l.text
  | sign s x => (Operator.sign s).symbol ++ x.textBeside (.sign s) .right x.text
  | factorial x => x.textBeside .factorial .left x.text ++ Operator.factorial.symbol
  | binary b x y =>
    x.textBeside b .left x.text ++ (Operator.binary b).symbol ++ y.textBeside b .right y.text

end Outline

namespace Expr

variable {α β γ : Type}

/-- Closes up the uppermost nodes for which there is something to show. -/
def outline (shown : Expr → Option α) (e : Expr) : Outline α :=
  match shown e with
  | some a => .part a
  | none =>
    match e with
    | literal _ l => .literal l
    | sign _ s x => .sign s (x.outline shown)
    | factorial _ x => .factorial (x.outline shown)
    | binary _ b x y => .binary b (x.outline shown) (y.outline shown)

theorem outline_of_some {shown : Expr → Option α} {e : Expr} {a : α} (h : shown e = some a) :
    e.outline shown = .part a := by
  unfold outline
  rw [h]

section Open

variable {shown : Expr → Option α}

theorem outline_literal {m : Option Value} {l : Literal} (h : shown (literal m l) = none) :
    (literal m l).outline shown = .literal l := by
  rw [outline, h]

theorem outline_sign {m : Option Value} {s : Sign} {x : Expr} (h : shown (sign m s x) = none) :
    (sign m s x).outline shown = .sign s (x.outline shown) := by
  rw [outline, h]

theorem outline_factorial {m : Option Value} {x : Expr} (h : shown (factorial m x) = none) :
    (factorial m x).outline shown = .factorial (x.outline shown) := by
  rw [outline, h]

theorem outline_binary {m : Option Value} {b : BinaryOperator} {x y : Expr}
    (h : shown (binary m b x y) = none) :
    (binary m b x y).outline shown = .binary b (x.outline shown) (y.outline shown) := by
  rw [outline, h]

/-- An open root is seen in the outline. -/
theorem op?_outline {e : Expr} (h : shown e = none) : (e.outline shown).op? = e.op? := by
  cases e with
  | literal m l => rw [outline_literal h]; rfl
  | sign m s x => rw [outline_sign h]; rfl
  | factorial m x => rw [outline_factorial h]; rfl
  | binary m b x y => rw [outline_binary h]; rfl

end Open

/-! ## Texts -/

theorem isFudgeDie_eq {shown : Expr → Option α} {e : Expr} (h : shown e = none) (op : Operator)
    (side : Side) :
    isFudgeDie op side e = (op.isDice && side == .right && (e.outline shown).isFudge) := by
  cases e with
  | literal m l =>
    rw [outline_literal h]
    rfl
  | sign m s x =>
    rw [outline_sign h]
    exact (Bool.and_false _).symm
  | factorial m x =>
    rw [outline_factorial h]
    exact (Bool.and_false _).symm
  | binary m b x y =>
    rw [outline_binary h]
    exact (Bool.and_false _).symm

theorem textBeside_part (op : Operator) (side : Side) (a : α) (text : String) :
    (Outline.part a).textBeside op side text = text := by
  have hfudge : (op.isDice && side == .right && (Outline.part a).isFudge) = false :=
    Bool.and_false _
  rw [Outline.textBeside, hfudge, if_neg Bool.false_ne_true]
  rfl

theorem operandText_eq (atom : Expr → Option String) (op : Operator) (side : Side) (e : Expr)
    (text : String) :
    operandText atom op side e text = (e.outline atom).textBeside op side text := by
  unfold operandText
  cases h : atom e with
  | some s =>
    rw [outline_of_some h, textBeside_part]
    rfl
  | none =>
    rw [Outline.textBeside, ← isFudgeDie_eq h, op?_outline h]
    rfl

/-- A text with some nodes shown as atoms is the text of an outline. -/
theorem render_eq (atom : Expr → Option String) (e : Expr) :
    e.render atom = (e.outline atom).text := by
  induction e with
  | literal m l =>
    cases h : atom (literal m l) with
    | some s => rw [render, h, outline_of_some h]; rfl
    | none => rw [render, h, outline_literal h]; rfl
  | sign m s x ih =>
    cases h : atom (sign m s x) with
    | some s => rw [render, h, outline_of_some h]; rfl
    | none =>
      rw [render, h, outline_sign h, Outline.text, operandText_eq, ih]
      rfl
  | factorial m x ih =>
    cases h : atom (factorial m x) with
    | some s => rw [render, h, outline_of_some h]; rfl
    | none =>
      rw [render, h, outline_factorial h, Outline.text, operandText_eq, ih]
      rfl
  | binary m b x y ihx ihy =>
    cases h : atom (binary m b x y) with
    | some s => rw [render, h, outline_of_some h]; rfl
    | none =>
      rw [render, h, outline_binary h, Outline.text, operandText_eq, operandText_eq, ihx, ihy]
      rfl

theorem text_eq_outline (e : Expr) : e.text = (e.outline fun _ => none).text := render_eq _ e

/-! ## The closed parts -/

section Closed

variable {shown : Expr → Option α} {g : α → Option β} {o : Outline β} (k : β → γ)

theorem outline_of_map_eq_of_some {e : Expr} {a : α} (hs : shown e = some a)
    (h : (e.outline shown).map g = o.map some) :
    (e.outline fun x => ((shown x).bind g).map k) = o.map k := by
  rw [outline_of_some hs] at h
  cases o with
  | part b =>
    have hg : g a = some b := Outline.part.inj h
    refine outline_of_some ?_
    rw [hs, Option.bind_some, hg]
    rfl
  | _ => cases h

/-- If something can be said of every closed part, the outline can be drawn with that instead. -/
theorem outline_of_map_eq {e : Expr} (h : (e.outline shown).map g = o.map some) :
    (e.outline fun x => ((shown x).bind g).map k) = o.map k := by
  have hopen : ∀ x, shown x = none → ((shown x).bind g).map k = none := by
    intro x hx
    rw [hx]
    rfl
  induction e generalizing o with
  | literal m l =>
    cases hs : shown (literal m l) with
    | some a => exact outline_of_map_eq_of_some k hs h
    | none =>
      rw [outline_literal hs] at h
      rw [outline_literal (hopen _ hs)]
      cases o <;> cases h
      rfl
  | sign m s x ih =>
    cases hs : shown (sign m s x) with
    | some a => exact outline_of_map_eq_of_some k hs h
    | none =>
      rw [outline_sign hs] at h
      rw [outline_sign (hopen _ hs)]
      cases o with
      | sign t y =>
        obtain ⟨rfl, hx⟩ := Outline.sign.inj h
        rw [ih hx]
        rfl
      | _ => cases h
  | factorial m x ih =>
    cases hs : shown (factorial m x) with
    | some a => exact outline_of_map_eq_of_some k hs h
    | none =>
      rw [outline_factorial hs] at h
      rw [outline_factorial (hopen _ hs)]
      cases o with
      | factorial y =>
        rw [ih (Outline.factorial.inj h)]
        rfl
      | _ => cases h
  | binary m b x y ihx ihy =>
    cases hs : shown (binary m b x y) with
    | some a => exact outline_of_map_eq_of_some k hs h
    | none =>
      rw [outline_binary hs] at h
      rw [outline_binary (hopen _ hs)]
      cases o with
      | binary b' x' y' =>
        obtain ⟨rfl, hx, hy⟩ := Outline.binary.inj h
        rw [ihx hx, ihy hy]
        rfl
      | _ => cases h

end Closed

end Expr

end DiceNotation
