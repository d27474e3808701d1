import DiceNotation.Proofs.Operator.Binding

/-!
# Precedence climbing

Reading expressions by recursion, with no stack of its own. An operand is a literal, an
expression in parentheses, or a sign with all that binds tighter than it. After an operand
the next operator extends what was read, unless the operator on the left takes it first.

* `climb_eq`, `operand_opened`, `operand_sign`, `extend_of_stops`, `extend_factorial`,
  `extend_binary`: the recursion as equations between plain results.
* `induction_on_reading`: induction along the recursion.
* `stops_of_climb`: an expression is read as far as possible.
-/

namespace DiceNotation.Climbing

/-! ## Where reading stops -/

/-- Whether the operator on the left, if there is one, takes its operands before `next` does. -/
def takesFirst (left : Option Operator) (next : Operator) : Bool :=
  left.any (·.reducesBefore next)

/-- The operator that would extend an operand which stands before the tokens. -/
def extension? : List Token → Option Operator
  | .op .factorial :: _ => some .factorial
  | .op (.binary b) :: _ => some (.binary b)
  | _ => none

/-- Nothing extends an operand that stands between the operator on the left and the tokens. -/
def Stops (left : Option Operator) (ts : List Token) : Prop :=
  ∀ next, extension? ts = some next → takesFirst left next = true

/-! ## Reading -/

/-- What is left of some tokens after at least one of them was read. -/
abbrev Shorter (ts : List Token) := { rest : List Token // rest.length < ts.length }

mutual

/-- Reads one operand. -/
def operandWithin (ts : List Token) : Option (Expr × Shorter ts) :=
  match ts with
  | .int n :: rest => some (.literal none (.int n), ⟨rest, Nat.lt_add_one _⟩)
  | .faces f :: rest => some (.literal none (.faces f), ⟨rest, Nat.lt_add_one _⟩)
  | .opened :: inner =>
    match climbWithin none inner with
    | some (e, ⟨.closed :: rest, h⟩) =>
      some (e, ⟨rest, by simp only [List.length_cons] at h ⊢; omega⟩)
    | _ => none
  | .op (.sign s) :: right =>
    match climbWithin (some (.sign s)) right with
    | some (x, ⟨rest, h⟩) =>
      some (.sign none s x, ⟨rest, by simp only [List.length_cons]; omega⟩)
    | none => none
  | _ => none
termination_by (ts.length, 0)

/-- Reads an expression on the right of an operator, or one with nothing on its left. -/
def climbWithin (left : Option Operator) (ts : List Token) : Option (Expr × Shorter ts) :=
  match operandWithin ts with
  | some (x, ⟨mid, hmid⟩) =>
    match extendWithin left x mid with
    | some (e, ⟨rest, h⟩) => some (e, ⟨rest, by omega⟩)
    | none => none
  | none => none
termination_by (ts.length, 1)

/-- Extends an operand by the operators after it. -/
def extendWithin (left : Option Operator) (x : Expr) (ts : List Token) :
    Option (Expr × { rest : List Token // rest.length ≤ ts.length }) :=
  match ts with
  | .op .factorial :: rest =>
    if takesFirst left .factorial then some (x, ⟨.op .factorial :: rest, Nat.le_refl _⟩)
    else
      match extendWithin left (.factorial none x) rest with
      | some (e, ⟨last, h⟩) => some (e, ⟨last, by simp only [List.length_cons]; omega⟩)
      | none => none
  | .op (.binary b) :: right =>
    if takesFirst left b then some (x, ⟨.op (.binary b) :: right, Nat.le_refl _⟩)
    else
      match climbWithin (some b) right with
      | some (y, ⟨rest, hrest⟩) =>
        match extendWithin left (.binary none b x y) rest with
        | some (e, ⟨last, h⟩) => some (e, ⟨last, by simp only [List.length_cons]; omega⟩)
        | none => none
      | none => none
  | ts => some (x, ⟨ts, Nat.le_refl _⟩)
termination_by (ts.length, 0)

end

/-- The operand that the tokens begin with, and the rest. -/
def operand (ts : List Token) : Option (Expr × List Token) :=
  (operandWithin ts).map fun found => (found.1, found.2.val)

/-- The longest expression that the tokens begin with on the right of an operator, or with
nothing on its left, and the rest. -/
def climb (left : Option Operator) (ts : List Token) : Option (Expr × List Token) :=
  (climbWithin left ts).map fun found => (found.1, found.2.val)

/-- An operand with all operators that extend it, and the rest. -/
def extend (left : Option Operator) (x : Expr) (ts : List Token) : Option (Expr × List Token) :=
  (extendWithin left x ts).map fun found => (found.1, found.2.val)

/-- The expression that is the whole of the tokens. -/
def read (ts : List Token) : Option Expr :=
  match climb none ts with
  | some (e, []) => some e
  | _ => none

theorem read_eq_some_iff {ts : List Token} {e : Expr} :
    read ts = some e ↔ climb none ts = some (e, []) := by
  unfold read
  split
  · next heq =>
    rw [heq]
    simp
  · next h =>
    simp only [reduceCtorEq, false_iff]
    exact h e

/-! ## The recursion as equations -/

@[simp] theorem operand_nil : operand [] = none := by
  simp [operand, operandWithin]

@[simp] theorem operand_int (n : Int64) (ts : List Token) :
    operand (.int n :: ts) = some (.literal none (.int n), ts) := by
  rw [operand, operandWithin]
  rfl

@[simp] theorem operand_faces (f : Faces) (ts : List Token) :
    operand (.faces f :: ts) = some (.literal none (.faces f), ts) := by
  rw [operand, operandWithin]
  rfl

@[simp] theorem operand_closed (ts : List Token) : operand (.closed :: ts) = none := by
  simp [operand, operandWithin]

@[simp] theorem operand_factorial (ts : List Token) :
    operand (.op .factorial :: ts) = none := by
  simp [operand, operandWithin]

@[simp] theorem operand_binary (b : BinaryOperator) (ts : List Token) :
    operand (.op (.binary b) :: ts) = none := by
  simp [operand, operandWithin]

/-- What an expression in parentheses reads as, given the expression and what follows it. -/
def leaveGroup : Expr × List Token → Option (Expr × List Token)
  | (e, .closed :: rest) => some (e, rest)
  | _ => none

theorem leaveGroup_eq_some_iff {x e : Expr} {ts rest : List Token} :
    leaveGroup (x, ts) = some (e, rest) ↔ x = e ∧ ts = .closed :: rest := by
  unfold leaveGroup
  split
  · next heq =>
    cases heq
    simp
  · next h =>
    simp only [reduceCtorEq, false_iff, not_and]
    rintro rfl rfl
    exact h _ _ rfl

theorem leaveGroup_eq_none {x : Expr} {t : Token} {ts : List Token} (h : t ≠ .closed) :
    leaveGroup (x, t :: ts) = none := by
  cases hg : leaveGroup (x, t :: ts) with
  | none => rfl
  | some found => cases (leaveGroup_eq_some_iff.mp hg).2; exact absurd rfl h

theorem operand_opened (ts : List Token) :
    operand (.opened :: ts) = (climb none ts).bind leaveGroup := by
  rw [operand, operandWithin, climb]
  rcases climbWithin none ts with _ | ⟨e, rest, h⟩
  · rfl
  · cases rest with
    | nil => rfl
    | cons t rest => cases t <;> rfl

theorem operand_sign (s : Sign) (ts : List Token) :
    operand (.op (.sign s) :: ts) =
      (climb (some (.sign s)) ts).bind fun found => some (.sign none s found.1, found.2) := by
  rw [operand, operandWithin, climb]
  rcases climbWithin (some (.sign s)) ts with _ | ⟨x, rest, h⟩ <;> rfl

/-- What an operand is: a literal, an expression in parentheses, or a signed expression. -/
theorem operand_cases {ts rest : List Token} {e : Expr} (h : operand ts = some (e, rest)) :
    (∃ l : Literal, ts = l.toToken :: rest ∧ e = .literal none l) ∨
    (∃ inner, ts = .opened :: inner ∧ climb none inner = some (e, .closed :: rest)) ∨
    ∃ s inner x, ts = .op (.sign s) :: inner ∧ climb (some (.sign s)) inner = some (x, rest) ∧
      e = .sign none s x := by
  cases ts with
  | nil =>
    rw [operand_nil] at h
    cases h
  | cons t ts =>
    cases t with
    | int n =>
      rw [operand_int] at h
      cases h
      exact .inl ⟨.int n, rfl, rfl⟩
    | faces f =>
      rw [operand_faces] at h
      cases h
      exact .inl ⟨.faces f, rfl, rfl⟩
    | closed =>
      rw [operand_closed] at h
      cases h
    | opened =>
      rw [operand_opened] at h
      obtain ⟨⟨x, mid⟩, hx, h⟩ := Option.bind_eq_some_iff.mp h
      obtain ⟨rfl, rfl⟩ := leaveGroup_eq_some_iff.mp h
      exact .inr (.inl ⟨ts, rfl, hx⟩)
    | op o =>
      cases o with
      | factorial =>
        rw [operand_factorial] at h
        cases h
      | binary b =>
        rw [operand_binary] at h
        cases h
      | sign s =>
        rw [operand_sign] at h
        obtain ⟨⟨x, mid⟩, hx, h⟩ := Option.bind_eq_some_iff.mp h
        cases h
        exact .inr (.inr ⟨s, ts, x, rfl, hx, rfl⟩)

theorem climb_eq (left : Option Operator) (ts : List Token) :
    climb left ts = (operand ts).bind fun found => extend left found.1 found.2 := by
  rw [operand, climb, climbWithin]
  rcases operandWithin ts with _ | ⟨x, mid, hmid⟩
  · rfl
  · simp only [Option.map_some, Option.bind_some, extend]
    rcases extendWithin left x mid with _ | ⟨e, rest, h⟩ <;> rfl

theorem extend_of_stops {left : Option Operator} {ts : List Token} (x : Expr)
    (h : Stops left ts) : extend left x ts = some (x, ts) := by
  rw [extend]
  unfold extendWithin
  split
  · rw [if_pos (h _ rfl)]
    rfl
  · rw [if_pos (h _ rfl)]
    rfl
  · rfl

theorem extend_factorial {left : Option Operator} (x : Expr) (ts : List Token)
    (h : takesFirst left .factorial = false) :
    extend left x (.op .factorial :: ts) = extend left (.factorial none x) ts := by
  rw [extend, extend, extendWithin, if_neg (by simp [h])]
  rcases extendWithin left (.factorial none x) ts with _ | ⟨e, rest, h⟩ <;> rfl

theorem extend_binary {left : Option Operator} {b : BinaryOperator} (x : Expr) (ts : List Token)
    (h : takesFirst left b = false) :
    extend left x (.op (.binary b) :: ts) =
      (climb (some b) ts).bind fun found => extend left (.binary none b x found.1) found.2 := by
  rw [extend, extendWithin, if_neg (by simp [h]), climb]
  rcases climbWithin (some (.binary b)) ts with _ | ⟨y, mid, hmid⟩
  · rfl
  · simp only [Option.map_some, Option.bind_some, extend]
    rcases extendWithin left (.binary none b x y) mid with _ | ⟨e, rest, h⟩ <;> rfl

/-! ## Progress -/

theorem length_lt_of_operand {ts rest : List Token} {e : Expr}
    (h : operand ts = some (e, rest)) : rest.length < ts.length := by
  obtain ⟨⟨e', rest', hlt⟩, -, heq⟩ := Option.map_eq_some_iff.mp h
  cases heq
  exact hlt

theorem length_lt_of_climb {left : Option Operator} {ts rest : List Token} {e : Expr}
    (h : climb left ts = some (e, rest)) : rest.length < ts.length := by
  obtain ⟨⟨e', rest', hlt⟩, -, heq⟩ := Option.map_eq_some_iff.mp h
  cases heq
  exact hlt

/-- What stands after an operand either ends the expression or begins with an operator that
extends it. -/
theorem stops_or_extends (left : Option Operator) (ts : List Token) :
    Stops left ts ∨
      (∃ rest, ts = .op .factorial :: rest ∧ takesFirst left .factorial = false) ∨
      ∃ b right, ts = .op (.binary b) :: right ∧ takesFirst left (.binary b) = false := by
  cases hnext : extension? ts with
  | none => exact .inl fun next h => by rw [hnext] at h; cases h
  | some next =>
    cases htake : takesFirst left next with
    | true =>
      refine .inl fun next' h => ?_
      rw [hnext] at h
      cases h
      exact htake
    | false =>
      unfold extension? at hnext
      split at hnext
      · cases hnext
        exact .inr (.inl ⟨_, rfl, htake⟩)
      · cases hnext
        exact .inr (.inr ⟨_, _, rfl, htake⟩)
      · cases hnext

/-- Induction along the recursion, with a statement `O` about operands, `C` about expressions
and `E` about extended operands. -/
theorem induction_on_reading {O : List Token → Prop} {C : Option Operator → List Token → Prop}
    {E : Option Operator → Expr → List Token → Prop}
    (operand_of : ∀ ts, (∀ left inner, inner.length < ts.length → C left inner) → O ts)
    (climb_of : ∀ left ts, O ts → (∀ x mid, operand ts = some (x, mid) → E left x mid) →
      C left ts)
    (stops : ∀ left x ts, Stops left ts → E left x ts)
    (factorial : ∀ left x ts, takesFirst left .factorial = false →
      E left (.factorial none x) ts → E left x (.op .factorial :: ts))
    (binary : ∀ left x b ts, takesFirst left (.binary b) = false → C (some (.binary b)) ts →
      (∀ y mid, climb (some (.binary b)) ts = some (y, mid) →
        E left (.binary none b x y) mid) → E left x (.op (.binary b) :: ts)) :
    (∀ ts, O ts) ∧ (∀ left ts, C left ts) ∧ ∀ left x ts, E left x ts := by
  have main : ∀ n, (∀ ts : List Token, ts.length = n → O ts) ∧
      (∀ left, ∀ ts : List Token, ts.length = n → C left ts) ∧
      ∀ left x, ∀ ts : List Token, ts.length = n → E left x ts := by
    intro n
    induction n using Nat.strongRecOn with
    | ind n ih =>
      have hO : ∀ ts : List Token, ts.length = n → O ts := fun ts hn =>
        operand_of ts fun left inner hlt => (ih _ (hn ▸ hlt)).2.1 left inner rfl
      refine ⟨hO, fun left ts hn => ?_, fun left x ts hn => ?_⟩
      · refine climb_of left ts (hO ts hn) fun x mid hmid => ?_
        exact (ih _ (hn ▸ length_lt_of_operand hmid)).2.2 left x mid rfl
      · rcases stops_or_extends left ts with h | ⟨rest, rfl, h⟩ | ⟨b, right, rfl, h⟩
        · exact stops left x ts h
        · rw [List.length_cons] at hn
          exact factorial left x rest h ((ih _ (by omega)).2.2 left _ rest rfl)
        · rw [List.length_cons] at hn
          refine binary left x b right h ((ih _ (by omega)).2.1 _ right rfl) fun y mid hy => ?_
          have hlt := length_lt_of_climb hy
          exact (ih _ (by omega)).2.2 left _ mid rfl
  exact ⟨fun ts => (main _).1 ts rfl, fun left ts => (main _).2.1 left ts rfl,
    fun left x ts => (main _).2.2 left x ts rfl⟩

/-! ## What was read -/

theorem extension?_eq_none {ts : List Token} (h : Stops none ts) : extension? ts = none := by
  cases hnext : extension? ts with
  | none => rfl
  | some next => cases h next hnext

theorem spec_of_extend {left : Option Operator} {x e : Expr} {ts rest : List Token}
    (h : extend left x ts = some (e, rest)) : Stops left rest ∧ x.depth ≤ e.depth := by
  have main := (induction_on_reading (O := fun _ => True) (C := fun _ _ => True)
    (E := fun left x ts => ∀ e rest, extend left x ts = some (e, rest) →
      Stops left rest ∧ x.depth ≤ e.depth)
    (fun _ _ => trivial) (fun _ _ _ _ => trivial) ?stops ?factorial ?binary).2.2
  case stops =>
    intro left x ts hs e rest h
    rw [extend_of_stops x hs] at h
    cases h
    exact ⟨hs, Nat.le_refl _⟩
  case factorial =>
    intro left x ts ht ih e rest h
    rw [extend_factorial x ts ht] at h
    obtain ⟨hs, hd⟩ := ih e rest h
    rw [Expr.depth] at hd
    exact ⟨hs, by omega⟩
  case binary =>
    intro left x b ts ht _ ih e rest h
    rw [extend_binary x ts ht] at h
    obtain ⟨⟨y, mid⟩, hy, h⟩ := Option.bind_eq_some_iff.mp h
    obtain ⟨hs, hd⟩ := ih y mid hy e rest h
    rw [Expr.depth] at hd
    exact ⟨hs, by omega⟩
  exact main left x ts e rest h

/-- An expression is read as far as possible. -/
theorem stops_of_climb {left : Option Operator} {ts rest : List Token} {e : Expr}
    (h : climb left ts = some (e, rest)) : Stops left rest := by
  rw [climb_eq] at h
  obtain ⟨⟨x, mid⟩, -, h⟩ := Option.bind_eq_some_iff.mp h
  exact (spec_of_extend h).1

/-- What was read stays a part of the result. -/
theorem depth_le_of_extend {left : Option Operator} {x e : Expr} {ts rest : List Token}
    (h : extend left x ts = some (e, rest)) : x.depth ≤ e.depth :=
  (spec_of_extend h).2

end DiceNotation.Climbing
