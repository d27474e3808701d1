import DiceNotation.Expr.Written
import DiceNotation.Proofs.Token.Literals
import DiceNotation.Proofs.Token.Scanning

/-!
# The tokens of a written expression

An expression is written as tokens and as a text by two functions that share only the rule for
parentheses. The text is scanned as the tokens, provided that its literals are plain: a negative
integer would be scanned as a sign and its opposite.

* `legible_text`: this is so wherever an operand may begin, and before anything but a digit.
-/

namespace DiceNotation

/-- Whether a literal has no sign in front of it and only integers in it. -/
def Literal.isPlain : Literal → Bool
  | int n => 0 ≤ n.toInt
  | faces f => f.isInteger

namespace Expr

/-- The literals of an expression from left to right. -/
def literals : Expr → List Literal
  | literal _ l => [l]
  | sign _ _ x | factorial _ x => x.literals
  | binary _ _ x y => x.literals ++ y.literals

/-! ## The text of operands -/

/-- The text of an operand beside an operator. -/
def textBeside (op : Operator) (side : Side) (e : Expr) : List Char :=
  if isFudgeDie op side e then ['F']
  else if op.encloses side e.op? then '(' :: e.text.toList ++ [')'] else e.text.toList

theorem toList_operandText (op : Operator) (side : Side) (e : Expr) :
    (operandText (fun _ => none) op side e e.text).toList = e.textBeside op side := by
  unfold operandText textBeside
  rw [if_neg (by simp)]
  split
  · rfl
  · split
    · rw [String.toList_append, String.toList_append]
      rfl
    · rfl

theorem toList_text_sign (m : Option Value) (s : Sign) (x : Expr) :
    (sign m s x).text.toList =
      (Operator.sign s).symbol.toList ++ x.textBeside (.sign s) .right := by
  rw [← toList_operandText, ← String.toList_append]
  rfl

theorem toList_text_factorial (m : Option Value) (x : Expr) :
    (factorial m x).text.toList = x.textBeside .factorial .left ++ ['!'] := by
  rw [← toList_operandText]
  exact String.toList_append

theorem toList_text_binary (m : Option Value) (b : BinaryOperator) (x y : Expr) :
    (binary m b x y).text.toList = x.textBeside b .left ++
      ((Operator.binary b).symbol.toList ++ y.textBeside b .right) := by
  rw [← toList_operandText, ← toList_operandText, ← String.toList_append, ← String.toList_append,
    ← String.append_assoc]
  rfl

end Expr

open Lexeme (EndsRun startsOperand endsRun_nil endsRun_cons)

/-! ## Where texts begin and end -/

/-- The text begins like an operand. -/
def BeginsOperand (cs : List Char) : Prop := ∃ c rest, cs = c :: rest ∧ startsOperand c = true

theorem BeginsOperand.append {cs : List Char} (h : BeginsOperand cs) (rest : List Char) :
    BeginsOperand (cs ++ rest) := by
  obtain ⟨c, tail, rfl, hc⟩ := h
  exact ⟨c, tail ++ rest, rfl, hc⟩

theorem beginsOperand_toDigits (n : Nat) : BeginsOperand (Nat.toDigits 10 n) := by
  cases h : Nat.toDigits 10 n with
  | nil => exact absurd h Nat.toDigits_ne_nil
  | cons c cs =>
    have hc : c.isDigit = true := Decimal.isDigit_of_mem c (h ▸ List.mem_cons_self)
    exact ⟨c, cs, rfl, by simp [startsOperand, hc]⟩

theorem beginsOperand_literal {l : Literal} (h : l.isPlain = true) :
    BeginsOperand l.text.toList := by
  cases l with
  | int n =>
    have hn : 0 ≤ n.toInt := of_decide_eq_true h
    change BeginsOperand (toString n.toInt).toList
    rw [Decimal.toList_toString_of_nonneg hn]
    exact beginsOperand_toDigits _
  | faces f => exact ⟨'[', _, Faces.toList_text f, rfl⟩

theorem beginsOperand_beside {e : Expr} (h : BeginsOperand e.text.toList) (op : Operator)
    (side : Side) : BeginsOperand (e.textBeside op side) := by
  unfold Expr.textBeside
  split
  · exact ⟨'F', [], rfl, rfl⟩
  · split
    · exact ⟨'(', _, rfl, rfl⟩
    · exact h

theorem beginsOperand_text (e : Expr) (h : ∀ l ∈ e.literals, l.isPlain = true) :
    BeginsOperand e.text.toList := by
  induction e with
  | literal m l => exact beginsOperand_literal (h l List.mem_cons_self)
  | sign m s x _ =>
    rw [Expr.toList_text_sign]
    cases s
    · exact ⟨'-', _, rfl, rfl⟩
    · exact ⟨'+', _, rfl, rfl⟩
  | factorial m x ih =>
    rw [Expr.toList_text_factorial]
    exact (beginsOperand_beside (ih h) .factorial .left).append _
  | binary m b x y ihx _ =>
    rw [Expr.toList_text_binary]
    have hx := ihx fun l hl => h l (List.mem_append_left _ hl)
    exact (beginsOperand_beside hx b .left).append _

namespace Token

/-- The last token is one after which no operand may begin. -/
def EndsOperand (ts : List Token) : Prop :=
  ∃ t, ts.getLast? = some t ∧ isSignPosition (some t) = false

theorem EndsOperand.append {ts : List Token} (h : EndsOperand ts) (us : List Token) :
    EndsOperand (us ++ ts) := by
  obtain ⟨t, ht, hsign⟩ := h
  exact ⟨t, by rw [List.getLast?_append, ht, Option.some_or], hsign⟩

theorem endsOperand_enclose {e : Expr} (h : EndsOperand e.tokens) (op : Operator) (side : Side) :
    EndsOperand (Expr.enclose op side e e.tokens) := by
  unfold Expr.enclose
  split
  · exact ⟨.closed, List.getLast?_concat, rfl⟩
  · exact h

theorem endsOperand_tokens (e : Expr) : EndsOperand e.tokens := by
  induction e with
  | literal m l => exact ⟨l.toToken, rfl, by cases l <;> rfl⟩
  | sign m s x ih => exact (endsOperand_enclose ih (.sign s) .right).append [_]
  | factorial m x _ => exact ⟨.op .factorial, List.getLast?_concat, rfl⟩
  | binary m b x y _ ihy =>
    have hy := (endsOperand_enclose ihy b .right).append [.op b]
    exact hy.append _

/-! ## Literals and operators -/

theorem scans_digits {cs : List Char} {n : Int64} (hread : Number.integer? cs = some n)
    (hne : cs ≠ []) (hcs : ∀ c ∈ cs, c.isDigit = true) (previous : Option Token)
    {rest : List Char} (hrest : EndsRun Char.isDigit rest) : Scans previous cs [.int n] rest := by
  have hlexeme := Lexeme.ofText_digits hne hcs hrest
  refine Scans.of_lexeme (x := .digits cs) hlexeme fun position => ?_
  simp only [Lexeme.token, hread]

theorem scans_int {n : Int64} (h : 0 ≤ n.toInt) (previous : Option Token) {rest : List Char}
    (hrest : EndsRun Char.isDigit rest) :
    Scans previous (toString n.toInt).toList [.int n] rest := by
  have hread := Number.integer?_toString n
  rw [Decimal.toList_toString_of_nonneg h] at hread ⊢
  exact scans_digits hread Nat.toDigits_ne_nil Decimal.isDigit_of_mem previous hrest

theorem scans_faces {f : Faces} (h : f.isInteger = true) (previous : Option Token)
    (rest : List Char) : Scans previous f.text.toList [.faces f] rest := by
  have hlexeme : Lexeme.ofText (Lexeme.text (.faces (Number.listText f.toList).toList) ++ rest) =
      .faces (Number.listText f.toList).toList :: Lexeme.ofText rest := by
    have hinner := Lexeme.ofText_faces (Faces.bracket_not_mem_listText h) rest
    rw [← hinner, Lexeme.text, List.append_assoc]
    rfl
  rw [Faces.toList_text]
  refine Scans.of_lexeme hlexeme fun position => ?_
  simp only [Lexeme.token, Faces.read?_listText_of_integers h]

theorem scans_literal {l : Literal} (h : l.isPlain = true) (previous : Option Token)
    {rest : List Char} (hrest : EndsRun Char.isDigit rest) :
    Scans previous l.text.toList [l.toToken] rest := by
  cases l with
  | int n => exact scans_int (of_decide_eq_true h) previous hrest
  | faces f => exact scans_faces h previous rest

theorem scans_sign (s : Sign) {previous : Option Token} (h : isSignPosition previous = true)
    (rest : List Char) :
    Scans previous (Operator.sign s).symbol.toList [.op (.sign s)] rest := by
  cases s with
  | minus =>
    refine Scans.of_single (x := .minus) rfl (fun position => ?_) rest
    simp only [Lexeme.token, h, if_true]
  | plus =>
    refine Scans.of_single (x := .plus) rfl (fun position => ?_) rest
    simp only [Lexeme.token, h, if_true]

theorem scans_spelling {w : List Char} {o : Operator} (h : (w, o) ∈ Operator.spellings)
    (previous : Option Token) {rest : List Char} (hrest : Lexeme.EndsSpelling w rest) :
    Scans previous w [.op o] rest :=
  Scans.of_lexeme (x := .op o w) (Lexeme.ofText_spelling h hrest) fun _ => rfl

theorem scans_factorial (previous : Option Token) (rest : List Char) :
    Scans previous ['!'] [.op .factorial] rest :=
  scans_spelling (by decide) previous (Lexeme.endsSpelling_factorial rest)

theorem mem_spellings : ∀ op ∈ Operator.all, op ≠ .plus → op ≠ .minus → op.arity = .between →
    (op.symbol.toList, op) ∈ Operator.spellings := by decide

theorem symbol_ne_nil : ∀ op ∈ Operator.all, op.symbol.toList ≠ [] := by decide

theorem scans_binary (b : BinaryOperator) {previous : Option Token}
    (h : isSignPosition previous = false) {rest : List Char} (hrest : BeginsOperand rest) :
    Scans previous (Operator.binary b).symbol.toList [.op b] rest := by
  by_cases hplus : b = .arithmetic .plus
  · subst hplus
    refine Scans.of_single (x := .plus) rfl (fun position => ?_) rest
    simp only [Lexeme.token, h, Bool.false_eq_true, if_false]
  · by_cases hminus : b = .arithmetic .minus
    · subst hminus
      refine Scans.of_single (x := .minus) rfl (fun position => ?_) rest
      simp only [Lexeme.token, h, Bool.false_eq_true, if_false]
    · obtain ⟨c, tail, rfl, hc⟩ := hrest
      have hspelled := mem_spellings b (Operator.mem_all b)
        (fun he => hplus (Operator.binary.inj he)) (fun he => hminus (Operator.binary.inj he)) rfl
      exact scans_spelling hspelled previous
        (Lexeme.endsSpelling_of_startsOperand (symbol_ne_nil _ (Operator.mem_all b)) hc tail)

theorem head?_symbol :
    ∀ op ∈ Operator.all, (op.symbol.toList.head?.any fun c => !c.isDigit) = true := by decide

theorem endsRun_symbol (op : Operator) (cs rest : List Char) :
    EndsRun Char.isDigit (op.symbol.toList ++ cs ++ rest) := by
  have hhead := head?_symbol op (Operator.mem_all op)
  cases h : op.symbol.toList with
  | nil =>
    rw [h] at hhead
    contradiction
  | cons c tail =>
    rw [h] at hhead
    have hc : c.isDigit = false := by simpa using hhead
    exact endsRun_cons hc _

/-! ## Expressions -/

/-- Wherever an operand may begin, and before anything but a digit, the text gives the tokens. -/
def Legible (cs : List Char) (ts : List Token) : Prop :=
  ∀ previous rest, isSignPosition previous = true → EndsRun Char.isDigit rest →
    Scans previous cs ts rest

theorem legible_parenthesized {cs : List Char} {ts : List Token} (h : Legible cs ts)
    (previous : Option Token) (rest : List Char) :
    Scans previous ('(' :: cs ++ [')']) (.opened :: ts ++ [.closed]) rest := by
  have hinner : Scans (some .opened) cs ts (')' :: rest) := h _ _ rfl (endsRun_cons rfl rest)
  have hopened : Scans previous ['('] [.opened] (cs ++ ')' :: rest) :=
    .of_single (x := .opened) rfl (fun _ => rfl) _
  have hclosed (last : Option Token) : Scans last [')'] [.closed] rest :=
    .of_single (x := .closed) rfl (fun _ => rfl) rest
  exact (hopened.append hinner).append (hclosed _)

theorem eq_fudge_of_isFudgeDie {op : Operator} {side : Side} {e : Expr}
    (h : Expr.isFudgeDie op side e = true) (hplain : ∀ l ∈ e.literals, l.isPlain = true) :
    op.isDice = true ∧ side = .right ∧ ∃ m, e = .literal m (.faces .fudge) := by
  cases e with
  | literal m l =>
    simp only [Expr.isFudgeDie, Bool.and_eq_true, beq_iff_eq] at h
    obtain ⟨⟨hdice, hside⟩, hl⟩ := h
    refine ⟨hdice, hside, m, ?_⟩
    cases l with
    | int n => contradiction
    | faces f =>
      have hf : f.isInteger = true := hplain _ List.mem_cons_self
      rw [Faces.eq_of_beq_of_isInteger hf rfl hl]
  | sign => contradiction
  | factorial => contradiction
  | binary => contradiction

/-- The text of an operand gives its tokens, parentheses included. -/
theorem scans_beside {e : Expr} (h : Legible e.text.toList e.tokens)
    (hplain : ∀ l ∈ e.literals, l.isPlain = true) {op : Operator} {side : Side}
    {previous : Option Token} {rest : List Char} (hprevious : isSignPosition previous = true)
    (hright : side = .right → previous = some (.op op)) (hrest : EndsRun Char.isDigit rest) :
    Scans previous (e.textBeside op side) (Expr.enclose op side e e.tokens) rest := by
  by_cases hfudge : Expr.isFudgeDie op side e = true
  · obtain ⟨hdice, hside, m, rfl⟩ := eq_fudge_of_isFudgeDie hfudge hplain
    have hdie : previous.any isDice = true := by
      rw [hright hside]
      exact hdice
    rw [Expr.textBeside, if_pos hfudge]
    exact Scans.of_single (x := .fudge) rfl (fun _ => if_pos hdie) rest
  · rw [Expr.textBeside, if_neg hfudge, Expr.enclose]
    split
    · exact legible_parenthesized h previous rest
    · exact h previous rest hprevious hrest

theorem legible_text (e : Expr) (hplain : ∀ l ∈ e.literals, l.isPlain = true) :
    Legible e.text.toList e.tokens := by
  induction e with
  | literal m l =>
    intro previous rest _ hrest
    exact scans_literal (hplain l List.mem_cons_self) previous hrest
  | sign m s x ih =>
    intro previous rest hprevious hrest
    rw [Expr.toList_text_sign]
    exact (scans_sign s hprevious _).append
      (scans_beside (ih hplain) hplain rfl (fun _ => rfl) hrest)
  | factorial m x ih =>
    intro previous rest hprevious hrest
    have hleft : Scans previous (x.textBeside .factorial .left)
        (Expr.enclose .factorial .left x x.tokens) ('!' :: rest) :=
      scans_beside (ih hplain) hplain hprevious nofun (endsRun_cons rfl rest)
    rw [Expr.toList_text_factorial]
    exact hleft.append (scans_factorial _ rest)
  | binary m b x y ihx ihy =>
    intro previous rest hprevious hrest
    have hx : ∀ l ∈ x.literals, l.isPlain = true := fun l hl =>
      hplain l (List.mem_append_left _ hl)
    have hy : ∀ l ∈ y.literals, l.isPlain = true := fun l hl =>
      hplain l (List.mem_append_right _ hl)
    have hleft : Scans previous (x.textBeside b .left) (Expr.enclose b .left x x.tokens)
        (((Operator.binary b).symbol.toList ++ y.textBeside b .right) ++ rest) :=
      scans_beside (ihx hx) hx hprevious nofun (endsRun_symbol b _ _)
    have hright : Scans (some (.op b)) (y.textBeside b .right)
        (Expr.enclose b .right y y.tokens) rest :=
      scans_beside (ihy hy) hy rfl (fun _ => rfl) hrest
    obtain ⟨t, ht, hsign⟩ := endsOperand_enclose (endsOperand_tokens x) b .left
    rw [Expr.toList_text_binary]
    refine hleft.append ?_
    rw [ht, Option.some_or]
    have hbegin := (beginsOperand_beside (beginsOperand_text y hy) b .right).append rest
    exact (scans_binary b hsign hbegin).append hright

end Token

end DiceNotation
