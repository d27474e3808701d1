import DiceNotation.Formula
import DiceNotation.Proofs.Climbing.Written
import DiceNotation.Proofs.Reader.Climbing
import DiceNotation.Proofs.Token.Written

/-!
# Written formulas read back

What is written is read as what was written: the tokens of a formula as the formula, without
what its nodes remember, and its text as its tokens.

* `ofTokens_tokens`: for all literals; only formulas that are too deep to be read are refused.
* `ofText_text`: for plain literals, whatever the depth.
* `reads_text`: the text of an expression as the expression.
-/

namespace DiceNotation.Formula

/-- The number of levels; the empty formula has none. -/
def depth (f : Formula) : Nat := (f.root.map Expr.depth).getD 0

/-- The literals of a formula from left to right. -/
def literals (f : Formula) : List Literal := (f.root.map Expr.literals).getD []

/-! ## Tokens -/

theorem ofTokens_of_expr {ts : List Token} {found : Option Expr}
    (h : Expr.ofTokens ts = .ok found) : ofTokens ts = .ok ⟨found⟩ := by
  rw [ofTokens, h]
  rfl

theorem ofTokens_error_of_expr {ts : List Token} {c : ParseError}
    (h : Expr.ofTokens ts = .error c) : ofTokens ts = .error c := by
  rw [ofTokens, h]
  rfl

theorem ofTokens_of_read {ts : List Token} {e : Expr} (h : Climbing.read ts = some e) :
    (e.depth ≤ maxDepth → ofTokens ts = .ok ⟨some e⟩) ∧
      (maxDepth < e.depth → ∃ i, ofTokens ts = .error (.tooDeep i)) := by
  refine ⟨fun hd => ofTokens_of_expr (Reader.ofTokens_of_read h hd), fun hd => ?_⟩
  obtain ⟨i, hi⟩ := Reader.ofTokens_eq_tooDeep h hd
  exact ⟨i, ofTokens_error_of_expr hi⟩

/-- The tokens of a formula are read as the formula, unless it is too deep. -/
theorem ofTokens_tokens (f : Formula) :
    (f.depth ≤ maxDepth → ofTokens f.tokens = .ok f.clear) ∧
      (maxDepth < f.depth → ∃ i, ofTokens f.tokens = .error (.tooDeep i)) := by
  obtain ⟨_ | e⟩ := f
  · refine ⟨fun _ => rfl, fun hdeep => ?_⟩
    exact absurd hdeep (Nat.not_lt_zero _)
  · have hread := Climbing.read_tokens e
    have hdepth : e.clear.depth = (Formula.mk (some e)).depth := Expr.depth_clear e
    constructor
    · intro hd
      rw [← hdepth] at hd
      exact ofTokens_of_expr (Reader.ofTokens_of_read hread hd)
    · intro hd
      rw [← hdepth] at hd
      obtain ⟨i, hi⟩ := Reader.ofTokens_eq_tooDeep hread hd
      exact ⟨i, ofTokens_error_of_expr hi⟩

/-! ## Text -/

/-- The text of an expression is read as the expression, unless it is too deep. -/
theorem reads_text {e : Expr} (h : ∀ l ∈ e.literals, l.isPlain = true) :
    (e.depth ≤ maxDepth → ofText e.text.toList = .ok ⟨some e.clear⟩) ∧
      (maxDepth < e.depth → ∃ i, ofText e.text.toList = .error (.tooDeep i)) := by
  have hscan := (Token.legible_text e h none [] rfl (Lexeme.endsRun_nil _)).ofText
  have hread := ofTokens_of_read (Climbing.read_tokens e)
  rw [Expr.depth_clear] at hread
  rw [ofText, hscan]
  exact hread

/-- The text of a formula gives its tokens. -/
theorem ofText_text (f : Formula) (h : ∀ l ∈ f.literals, l.isPlain = true) :
    Token.ofText f.text.toList = .ok f.tokens := by
  obtain ⟨_ | e⟩ := f
  · have hempty : (Formula.mk none).text.toList = [] := rfl
    rw [hempty, Token.ofText, Lexeme.ofText]
    rfl
  · exact (Token.legible_text e h none [] rfl (Lexeme.endsRun_nil _)).ofText

theorem ofText_text_fudge_dice :
    let f : Formula := ⟨some (.binary none (.arithmetic .minus)
      (.binary none (.dice .plain) (.int 2) (.literal none (.faces .fudge)))
      (.factorial none (.sign none .minus (.int 3))))⟩
    (∀ l ∈ f.literals, l.isPlain = true) ∧ f.text = "2dF-(-3)!" ∧
      Token.ofText f.text.toList = .ok f.tokens := by
  intro f
  have hplain : ∀ l ∈ f.literals, l.isPlain = true := by decide
  exact ⟨hplain, by decide, ofText_text f hplain⟩

end DiceNotation.Formula
