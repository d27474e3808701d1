import DiceNotation.Proofs.Formula.RoundTrip
import DiceNotation.Proofs.Grammar.Groups
import DiceNotation.Rollable

/-!
# Modifiers as tokens

A modifier is put above the root of a formula, or behind the tokens of its text, which then stand
in parentheses. The two are the same formula wherever the second can be read: parentheses must
not be empty, the tokens nest one level deeper than the text, and parentheses that match nothing
in the text may match the new ones.

* `Rollable.modifierReadsAs_of_ofTokens`: what becomes of tokens that can be read.
* `Rollable.exists_error_withModifier`: what becomes of tokens that cannot.
* `Rollable.compile_agrees_tokens`: where the two ways agree and how they part.
-/

namespace DiceNotation

/-! ## Both ways, by the tokens of the text -/

/-- Tokens with a modifier behind them, unless it is zero. -/
def Token.withModifier (m : Int64) (ts : List Token) : List Token :=
  if m = 0 then ts
  else
    let (a, amount) := Formula.modifierParts m
    Climbing.groupedWith ts (.arithmetic a) (.int amount)

theorem Token.ofTextWithModifier_eq (cs : List Char) (m : Int64) :
    ofTextWithModifier cs m = (ofText cs).map (withModifier m) := by
  unfold ofTextWithModifier withModifier
  cases ofText cs with
  | error c => rfl
  | ok ts =>
    change (if m = 0 then pure ts else _) = Except.ok (if m = 0 then ts else _)
    split <;> rfl

theorem Token.withModifier_of_ne_zero {m : Int64} (hm : m ≠ 0) (ts : List Token) :
    withModifier m ts = Climbing.groupedWith ts (.arithmetic (Formula.modifierParts m).1)
      (.int (Formula.modifierParts m).2) := if_neg hm

theorem Formula.addModifier_of_ne_zero {m : Int64} (hm : m ≠ 0) (f : Formula) :
    f.addModifier m = ⟨some (.binary none (.arithmetic (modifierParts m).1) f.rootOrZero
      (.int (modifierParts m).2))⟩ := if_neg hm

/-- A modifier adds one level to an expression. -/
theorem Formula.depth_addModifier {m : Int64} (hm : m ≠ 0) (e : Expr) :
    (addModifier ⟨some e⟩ m).depth = e.depth + 1 := by
  rw [addModifier_of_ne_zero hm]
  change max e.depth 1 + 1 = e.depth + 1
  rw [Nat.max_eq_left e.depth_pos]

namespace Rollable

variable {cs : List Char} {ts : List Token} {m : Int64}

theorem compile_text_of_ofText (h : Token.ofText cs = .ok ts) :
    (text cs).compile m = ((Formula.ofTokens ts).mapError .parse).map (·.addModifier m) := by
  rw [compile, toFormula, Formula.ofText, h]
  rfl

theorem compile_eq_ok_iff (h : Token.ofText cs = .ok ts) {f : Formula} :
    (text cs).compile m = .ok f ↔ ∃ g, Formula.ofTokens ts = .ok g ∧ g.addModifier m = f := by
  rw [compile_text_of_ofText h]
  cases Formula.ofTokens ts with
  | error c => exact ⟨nofun, nofun⟩
  | ok g =>
    refine ⟨fun hg => ⟨g, rfl, Except.ok.inj hg⟩, ?_⟩
    rintro ⟨_, ⟨⟩, rfl⟩
    rfl

theorem compile_eq_error {c : RollError} (h : Token.ofText cs = .ok ts)
    (hc : (text cs).compile m = .error c) : ∃ c', Formula.ofTokens ts = .error c' := by
  rw [compile_text_of_ofText h] at hc
  cases hts : Formula.ofTokens ts with
  | error c' => exact ⟨c', rfl⟩
  | ok g =>
    rw [hts] at hc
    cases hc

/-! ## Texts that can be compiled -/

/-- What the tokens with a modifier are read as, if the tokens alone are read as `f` without it. -/
structure ModifierReadsAs (ts : List Token) (m : Int64) (f : Formula) : Prop where
  empty_group : m ≠ 0 → ts = [] →
    Formula.ofTokens (Token.withModifier m ts) = .error (.emptyGroup 1)
  too_deep : maxDepth < (f.addModifier m).depth →
    ∃ i, Formula.ofTokens (Token.withModifier m ts) = .error (.tooDeep i)
  reads : m = 0 ∨ ts ≠ [] → (f.addModifier m).depth ≤ maxDepth →
    Formula.ofTokens (Token.withModifier m ts) = .ok (f.addModifier m)

theorem modifierReadsAs_zero {f : Formula} (hf : f.depth ≤ maxDepth)
    (h : Formula.ofTokens ts = .ok f) : ModifierReadsAs ts 0 f where
  empty_group hm := absurd rfl hm
  too_deep hd := absurd hd (Nat.not_lt.mpr hf)
  reads _ _ := h

theorem modifierReadsAs_empty (hm : m ≠ 0) : ModifierReadsAs [] m .empty where
  empty_group _ _ := by
    rw [Token.withModifier_of_ne_zero hm]
    rfl
  too_deep hd := by
    rw [Formula.addModifier_of_ne_zero hm] at hd
    have hshallow : maxDepth < 2 := hd
    exact absurd hshallow (by decide)
  reads hor := by
    rcases hor with rfl | hne
    · exact absurd rfl hm
    · exact absurd rfl hne

theorem modifierReadsAs_read (hm : m ≠ 0) {e : Expr} (h : Climbing.read ts = some e) :
    ModifierReadsAs ts m ⟨some e⟩ := by
  have hgroup := Climbing.read_groupedWith h (.arithmetic (Formula.modifierParts m).1)
    (.int (Formula.modifierParts m).2)
  rw [← Token.withModifier_of_ne_zero hm] at hgroup
  obtain ⟨hreads, hdeep⟩ := Formula.ofTokens_of_read hgroup
  have hf := Formula.addModifier_of_ne_zero hm ⟨some e⟩
  constructor
  case empty_group =>
    intro _ hnil
    exact absurd hnil (Reader.ne_nil_of_read h)
  case too_deep =>
    intro hd
    rw [hf] at hd
    exact hdeep hd
  case reads =>
    intro _ hd
    rw [hf] at hd ⊢
    exact hreads hd

theorem modifierReadsAs_of_ofTokens {f : Formula} (h : Formula.ofTokens ts = .ok f) :
    ModifierReadsAs ts m f := by
  rcases Reader.ofTokens_cases ts with ⟨rfl, hts⟩ | ⟨e, he, hd, hts⟩ | ⟨c, hts⟩
  · cases (Formula.ofTokens_of_expr hts).symm.trans h
    by_cases hm : m = 0
    · subst hm
      exact modifierReadsAs_zero (Nat.zero_le _) h
    · exact modifierReadsAs_empty hm
  · cases (Formula.ofTokens_of_expr hts).symm.trans h
    by_cases hm : m = 0
    · subst hm
      exact modifierReadsAs_zero hd h
    · exact modifierReadsAs_read hm he
  · cases (Formula.ofTokens_error_of_expr hts).symm.trans h

/-! ## Texts that cannot be compiled -/

/-- Tokens that are refused are refused with a modifier as well, unless the new parentheses match
some of theirs. -/
theorem exists_error_withModifier {c : ParseError} (h : Formula.ofTokens ts = .error c)
    (hparens : m = 0 ∨ Balanced ts ∨ ¬Balanced (.opened :: ts ++ [.closed])) :
    ∃ c', Formula.ofTokens (Token.withModifier m ts) = .error c' := by
  by_cases hm : m = 0
  · subst hm
    exact ⟨c, h⟩
  · rw [Token.withModifier_of_ne_zero hm]
    rcases Reader.ofTokens_cases (Climbing.groupedWith ts _ _) with
      ⟨hnil, -⟩ | ⟨y, hy, hd, -⟩ | ⟨c', hc'⟩
    · cases hnil
    · have hbalanced : Balanced ts := by
        rcases hparens with hzero | hts | hgroup
        · exact absurd hzero hm
        · exact hts
        · exact absurd (Climbing.balanced_of_read_groupedWith hy) hgroup
      obtain ⟨x, hx⟩ := Climbing.exists_read_of_groupedWith hbalanced hy
      cases (Climbing.read_groupedWith hx _ _).symm.trans hy
      -- the tokens alone are read as the left operand, which is not too deep either
      have hdepth : x.depth ≤ maxDepth := by
        rw [Expr.depth] at hd
        omega
      cases ((Formula.ofTokens_of_read hx).1 hdepth).symm.trans h
    · exact ⟨c', Formula.ofTokens_error_of_expr hc'⟩

/-! ## The two ways compared -/

/-- Whether a text with a modifier and its tokens with the modifier are the same formula, or both
no formula. -/
def ModifierAgrees (cs : List Char) (m : Int64) : Prop :=
  (∀ f, (text cs).compile m = .ok f → ∃ ts, Token.ofTextWithModifier cs m = .ok ts ∧
      ∃ g, Formula.ofTokens ts = .ok g ∧ (g == f) = true) ∧
    ∀ c, (text cs).compile m = .error c →
      (∃ c', Token.ofTextWithModifier cs m = .error c') ∨
        ∃ ts c', Token.ofTextWithModifier cs m = .ok ts ∧ Formula.ofTokens ts = .error c'

/-- If a text with a modifier can be compiled, its tokens with the modifier are the same formula,
unless the text is blank or the formula too deep to be read. If it cannot, the tokens are no
formula either, unless parentheses match only the new ones. -/
theorem compile_agrees_tokens (cs : List Char) (m : Int64) :
    (∀ f, (text cs).compile m = .ok f → ∃ ts, Token.ofTextWithModifier cs m = .ok ts ∧
        (m ≠ 0 → Token.ofText cs = .ok [] → Formula.ofTokens ts = .error (.emptyGroup 1)) ∧
        (maxDepth < f.depth → ∃ i, Formula.ofTokens ts = .error (.tooDeep i)) ∧
        (m = 0 ∨ Token.ofText cs ≠ .ok [] → f.depth ≤ maxDepth → Formula.ofTokens ts = .ok f)) ∧
      ∀ c, (text cs).compile m = .error c →
        (∃ c', Token.ofTextWithModifier cs m = .error c') ∨
          ∃ ts ts', Token.ofText cs = .ok ts ∧ Token.ofTextWithModifier cs m = .ok ts' ∧
            (m = 0 ∨ Balanced ts ∨ ¬Balanced (.opened :: ts ++ [.closed]) →
              ∃ c', Formula.ofTokens ts' = .error c') := by
  rw [Token.ofTextWithModifier_eq]
  cases hts : Token.ofText cs with
  | error c =>
    refine ⟨fun f hf => ?_, fun c' _ => .inl ⟨c, rfl⟩⟩
    rw [compile, toFormula, Formula.ofText, hts] at hf
    cases hf
  | ok ts =>
    refine ⟨fun f hf => ?_, fun c hc => .inr ⟨ts, _, rfl, rfl, fun hparens => ?_⟩⟩
    · obtain ⟨g, hg, rfl⟩ := (compile_eq_ok_iff hts).mp hf
      have h : ModifierReadsAs ts m g := modifierReadsAs_of_ofTokens hg
      refine ⟨_, rfl, fun hm hnil => ?_, h.too_deep, fun hor => h.reads ?_⟩
      · exact h.empty_group hm (Except.ok.inj hnil)
      · exact hor.imp_right fun hne hnil => hne (congrArg _ hnil)
    · obtain ⟨c', hc'⟩ := compile_eq_error hts hc
      exact exists_error_withModifier hc' hparens

/-! ## Where the two ways part -/

/-- A text that can be compiled, but not as tokens with the modifier. -/
theorem not_modifierAgrees_of_refused {f : Formula} {c : ParseError}
    (hts : Token.ofText cs = .ok ts) (hf : Formula.ofTokens ts = .ok f)
    (hrefused : Formula.ofTokens (Token.withModifier m ts) = .error c) :
    ¬ModifierAgrees cs m := by
  rintro ⟨h, -⟩
  obtain ⟨ts', hts', g, hg, -⟩ := h _ ((compile_eq_ok_iff hts).mpr ⟨f, hf, rfl⟩)
  rw [Token.ofTextWithModifier_eq, hts] at hts'
  cases hts'
  cases hrefused.symm.trans hg

/-- A text that cannot be compiled, though the tokens with the modifier can be read. -/
theorem not_modifierAgrees_of_accepted {f : Formula} {c : ParseError}
    (hts : Token.ofText cs = .ok ts) (hc : Formula.ofTokens ts = .error c)
    (haccepted : Formula.ofTokens (Token.withModifier m ts) = .ok f) :
    ¬ModifierAgrees cs m := by
  rintro ⟨-, h⟩
  have hcompile : (text cs).compile m = .error (.parse c) := by
    rw [compile_text_of_ofText hts, hc]
    rfl
  rcases h _ hcompile with ⟨c', hc'⟩ | ⟨ts', c', hts', hc'⟩
  · rw [Token.ofTextWithModifier_eq, hts] at hc'
    cases hc'
  · rw [Token.ofTextWithModifier_eq, hts] at hts'
    cases hts'
    cases haccepted.symm.trans hc'

/-- The number one below some signs. -/
def negated : Nat → Expr
  | 0 => .int 1
  | n + 1 => .sign none .minus (negated n)

theorem text_negated (n : Nat) : (negated n).text.toList = List.replicate n '-' ++ ['1'] := by
  induction n with
  | zero => rfl
  | succ n ih =>
    have hbare : (negated n).textBeside (.sign .minus) .right = (negated n).text.toList := by
      cases n <;> rfl
    rw [negated, Expr.toList_text_sign, hbare, ih]
    rfl

theorem depth_negated (n : Nat) : (negated n).depth = n + 1 := by
  induction n with
  | zero => rfl
  | succ n ih => rw [negated, Expr.depth, ih]

theorem clear_negated (n : Nat) : (negated n).clear = negated n := by
  induction n with
  | zero => rfl
  | succ n ih => rw [negated, Expr.clear, ih]

theorem isPlain_negated (n : Nat) : ∀ l ∈ (negated n).literals, l.isPlain = true := by
  induction n with
  | zero => decide
  | succ n ih => exact ih

theorem ofText_replicate_minus (n : Nat) :
    Token.ofText (List.replicate n '-' ++ ['1']) = .ok (negated n).tokens := by
  rw [← text_negated]
  exact (Token.legible_text (negated n) (isPlain_negated n) none [] rfl
    (Lexeme.endsRun_nil _)).ofText

/-- The two ways part for a text without tokens, for parentheses that match nothing in the text,
and at the limit of depth. -/
theorem modifier_disagrees :
    ¬ModifierAgrees [] 3 ∧ ¬ModifierAgrees "1)+(2".toList 3 ∧
      ¬ModifierAgrees (List.replicate 255 '-' ++ ['1']) 1 := by
  refine ⟨?empty, ?unmatched, ?deep⟩
  case empty =>
    have hts : Token.ofText [] = .ok [] := (Token.ofText_eq_cut _).trans rfl
    exact not_modifierAgrees_of_refused hts rfl ((modifierReadsAs_empty (by decide)).empty_group
      (by decide) rfl)
  case unmatched =>
    have hts : Token.ofText "1)+(2".toList = .ok [.int 1, .closed,
        .op (.binary (.arithmetic .plus)), .opened, .int 2] := (Token.ofText_eq_cut _).trans rfl
    exact not_modifierAgrees_of_accepted hts rfl rfl
  case deep =>
    have hread := Climbing.read_tokens (negated 255)
    rw [clear_negated] at hread
    have hlimit : (negated 255).depth = maxDepth := depth_negated 255
    have hm : (1 : Int64) ≠ 0 := by decide
    have hdeep : maxDepth < (Formula.addModifier ⟨some (negated 255)⟩ 1).depth := by
      rw [Formula.depth_addModifier hm, hlimit]
      exact Nat.lt_add_one maxDepth
    have haccepted := (Formula.ofTokens_of_read hread).1 (Nat.le_of_eq hlimit)
    obtain ⟨i, hrefused⟩ := (modifierReadsAs_read hm hread).too_deep hdeep
    exact not_modifierAgrees_of_refused (ofText_replicate_minus 255) haccepted hrefused

end Rollable

end DiceNotation
