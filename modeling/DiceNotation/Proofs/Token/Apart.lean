import DiceNotation.Proofs.Token.Boundaries
import DiceNotation.Proofs.Token.Written

/-!
# Tokens written apart

The tokens of a text can be shown one by one, with separators between them. Then second names of
operators, the letter of the fudge die, and leading zeros are gone, but each token is read back:
a separator ends whatever stands before it, and whether `+` and `-` are signs is decided
by the token before, which is the one that it was.

* `scans_text`: what a lexeme is shown as gives the token that the lexeme gave.
* `ofText_apart`: the tokens of a text, written apart, are its tokens.
-/

namespace DiceNotation

open Lexeme (EndsRun EndsSpelling isSeparator endsRun_nil endsRun_cons)

namespace Token

/-- The tokens are shown one after the other, with a run of separators between any two. -/
inductive Apart : List Token → List Char → Prop where
  | nil : Apart [] []
  | single (t : Token) : Apart [t] t.text.toList
  | cons {t u : Token} {ts : List Token} (gap : List Char) {cs : List Char} : gap ≠ [] →
      (∀ c ∈ gap, isSeparator c = true) → Apart (u :: ts) cs →
      Apart (t :: u :: ts) (t.text.toList ++ gap ++ cs)

/-! ## Separators -/

/-- Nothing follows, or a separator does. -/
def StartsApart (rest : List Char) : Prop := ∀ c ∈ rest.head?, isSeparator c = true

theorem startsApart_nil : StartsApart [] := fun _ hc => absurd hc (Option.not_mem_none _)

theorem StartsApart.endsRun_digits {rest : List Char} (h : StartsApart rest) :
    EndsRun Char.isDigit rest := by
  intro c hc
  have hsep := h c hc
  rw [Bool.eq_false_iff]
  intro hdigit
  rw [Lexeme.isSeparator_of_isDigit hdigit] at hsep
  cases hsep

theorem isSeparator_of_mem_spelling :
    ∀ e ∈ Operator.spellings, ∀ c ∈ e.1, isSeparator c = false := by
  have hall : (Operator.spellings.all fun e => e.1.all fun c => !isSeparator c) = true := by decide
  simpa only [List.all_eq_true, Bool.not_eq_true'] using hall

theorem StartsApart.endsSpelling {rest : List Char} (h : StartsApart rest) (w : List Char) :
    EndsSpelling w rest := by
  intro c hc e he heq
  have hmem : c ∈ e.1 := heq ▸ List.mem_append_right w List.mem_cons_self
  have hsep := h c hc
  rw [isSeparator_of_mem_spelling e he c hmem] at hsep
  cases hsep

theorem startsApart_append {gap : List Char} (hne : gap ≠ [])
    (hgap : ∀ c ∈ gap, isSeparator c = true) (rest : List Char) : StartsApart (gap ++ rest) := by
  cases gap with
  | nil => contradiction
  | cons d gap =>
    intro c hc
    cases hc
    exact hgap d List.mem_cons_self

theorem isSeparator_of_mem_symbol :
    ∀ op ∈ Operator.all, ∀ c ∈ op.symbol.toList, isSeparator c = false := by
  have hall : (Operator.all.all fun op => op.symbol.toList.all fun c => !isSeparator c) = true := by
    decide
  simpa only [List.all_eq_true, Bool.not_eq_true'] using hall

/-- A token is shown as a text that no separator begins. -/
theorem exists_text_eq_cons (t : Token) :
    ∃ c cs, t.text.toList = c :: cs ∧ isSeparator c = false := by
  cases t with
  | opened => exact ⟨'(', [], rfl, rfl⟩
  | closed => exact ⟨')', [], rfl, rfl⟩
  | faces f => exact ⟨'[', _, Faces.toList_text f, rfl⟩
  | op o =>
    obtain ⟨c, cs, hsymbol⟩ := List.exists_cons_of_ne_nil (symbol_ne_nil o (Operator.mem_all o))
    refine ⟨c, cs, hsymbol, isSeparator_of_mem_symbol o (Operator.mem_all o) c ?_⟩
    rw [hsymbol]
    exact List.mem_cons_self
  | int n =>
    by_cases h : 0 ≤ n.toInt
    · obtain ⟨c, cs, hdigits⟩ :=
        List.exists_cons_of_ne_nil (Nat.toDigits_ne_nil (n := n.toInt.toNat) (b := 10))
      have hc : c.isDigit = true := Decimal.isDigit_of_mem c (hdigits ▸ List.mem_cons_self)
      refine ⟨c, cs, ?_, Lexeme.isSeparator_of_isDigit hc⟩
      rw [← hdigits]
      exact Decimal.toList_toString_of_nonneg h
    · exact ⟨'-', _, Decimal.toList_toString_of_neg (Int.not_le.mp h), rfl⟩

theorem endsRun_of_apart {t : Token} {ts : List Token} {cs : List Char} (h : Apart (t :: ts) cs) :
    EndsRun isSeparator cs := by
  obtain ⟨c, rest, htext, hc⟩ := exists_text_eq_cons t
  cases h with
  | single =>
    rw [htext]
    exact endsRun_cons hc rest
  | cons =>
    rw [htext]
    exact endsRun_cons hc _

theorem scans_gap {gap rest : List Char} (hne : gap ≠ [])
    (hgap : ∀ c ∈ gap, isSeparator c = true) (previous : Option Token)
    (hrest : EndsRun isSeparator rest) : Scans previous gap [] rest := by
  intro position
  have hid : (fun ts : List Token => [] ++ ts) = id := rfl
  rw [Lexeme.ofText_blank hne hgap hrest, hid, Except.map_id]
  rfl

/-! ## Tokens -/

/-- Digits are read as an integer that is not negative. -/
theorem nonneg_of_digits {cs : List Char} {n : Int64} (hcs : ∀ c ∈ cs, c.isDigit = true)
    (h : Number.integer? cs = some n) : 0 ≤ n.toInt := by
  rw [Number.integer?, Decimal.integer?, Decimal.splitSign_of_digits hcs] at h
  dsimp only at h
  split at h
  · cases h
  · rw [Option.bind_some, int64?_eq_some_iff] at h
    rw [← h]
    exact Int.natCast_nonneg _

theorem mem_spellings_symbol :
    ∀ e ∈ Operator.spellings, (e.2.symbol.toList, e.2) ∈ Operator.spellings := by decide

/-- Before a separator, what a lexeme is shown as gives the token that the lexeme gave. -/
theorem scans_text {x : Lexeme} {position : Nat} {previous : Option Token} {t : Token}
    {rest : List Char} (hx : x.IsWhole) (ht : x.token position previous = .ok (some t))
    (hfaces : ∀ f, t = .faces f → f.isInteger = true) (hrest : StartsApart rest) :
    Scans previous t.text.toList [t] rest := by
  cases x with
  | blank | unclosed | unknown => cases ht
  | opened =>
    cases ht
    exact .of_single (x := .opened) rfl (fun _ => rfl) rest
  | closed =>
    cases ht
    exact .of_single (x := .closed) rfl (fun _ => rfl) rest
  | plus =>
    cases ht
    have htext : (Token.op (if isSignPosition previous = true then .sign .plus
        else .binary (.arithmetic .plus))).text.toList = ['+'] := by split <;> rfl
    rw [htext]
    exact .of_single (x := .plus) rfl (fun _ => rfl) rest
  | minus =>
    cases ht
    have htext : (Token.op (if isSignPosition previous = true then .sign .minus
        else .binary (.arithmetic .minus))).text.toList = ['-'] := by split <;> rfl
    rw [htext]
    exact .of_single (x := .minus) rfl (fun _ => rfl) rest
  | op o w =>
    cases ht
    exact scans_spelling (mem_spellings_symbol _ hx) previous (hrest.endsSpelling _)
  | digits cs =>
    simp only [Lexeme.token] at ht
    split at ht
    · next n hn =>
      cases ht
      exact scans_int (nonneg_of_digits hx.2 hn) previous hrest.endsRun_digits
    · cases ht
  | faces inner =>
    simp only [Lexeme.token] at ht
    split at ht
    · next f hf =>
      cases ht
      exact scans_faces (hfaces f rfl) previous rest
    · cases ht
  | fudge =>
    simp only [Lexeme.token] at ht
    split at ht
    · cases ht
      exact scans_faces rfl previous rest
    · cases ht

theorem scans_apart {position : Nat} {previous : Option Token} {xs : List Lexeme}
    {ts : List Token} {cs : List Char} (hxs : ∀ x ∈ xs, x.IsWhole)
    (h : ofLexemes position previous xs = .ok ts)
    (hfaces : ∀ f, .faces f ∈ ts → f.isInteger = true) (hcs : Apart ts cs) :
    Scans previous cs ts [] := by
  induction xs generalizing position previous ts cs with
  | nil =>
    cases h
    cases hcs
    intro position
    rw [List.append_nil, Lexeme.ofText]
    rfl
  | cons x xs ih =>
    obtain ⟨hx, hrest⟩ := List.forall_mem_cons.mp hxs
    simp only [ofLexemes] at h
    split at h
    · cases h
    · exact ih hrest h hfaces hcs
    · next t ht =>
      cases hus : ofLexemes (position + byteLength x.text) (some t) xs with
      | error c =>
        rw [hus] at h
        cases h
      | ok us =>
        rw [hus] at h
        cases h
        have ht' (rest : List Char) (hstart : StartsApart rest) :
            Scans previous t.text.toList [t] rest :=
          scans_text hx ht (fun f hf => hfaces f (hf ▸ List.mem_cons_self)) hstart
        cases hcs with
        | single => exact ht' [] startsApart_nil
        | @cons _ u us gap cs hne hgap hcs =>
          have hus' : Scans (some t) cs (u :: us) [] :=
            ih hrest hus (fun f hf => hfaces f (List.mem_cons_of_mem t hf)) hcs
          have hgap' : Scans (some t) gap [] (cs ++ []) := by
            rw [List.append_nil]
            exact scans_gap hne hgap (some t) (endsRun_of_apart hcs)
          exact ((ht' _ (startsApart_append hne hgap _)).append hgap').append hus'

/-- The tokens of a text, shown with separators between them, are cut into the same tokens. -/
theorem ofText_apart {cs shown : List Char} {ts : List Token} (h : ofText cs = .ok ts)
    (hfaces : ∀ f, .faces f ∈ ts → f.isInteger = true) (hshown : Apart ts shown) :
    ofText shown = .ok ts :=
  (scans_apart (fun _ hx => Lexeme.isWhole_of_mem hx) h hfaces hshown).ofText

/-- In `4dF--007rl[+1]` a letter, a second name and the digits are not spelled as they are shown. -/
theorem ofText_apart_signs :
    let ts : List Token := [.int 4, .op (.binary (.dice .plain)), .faces .fudge,
      .op (.binary (.arithmetic .minus)), .op (.sign .minus), .int 7,
      .op (.binary (.modifier (.reroll .lower .once))), .faces ⟨[.int 1], by simp⟩]
    let shown := "4 d\t[-1, 0, 1]\n-\r\n- 7  r< [1]".toList
    ofText "4dF--007rl[+1]".toList = .ok ts ∧
      (∀ f, .faces f ∈ ts → f.isInteger = true) ∧ Apart ts shown ∧ ofText shown = .ok ts := by
  intro ts shown
  have hread : ofText "4dF--007rl[+1]".toList = .ok ts := (ofText_eq_cut _).trans rfl
  have hfaces : ∀ f, .faces f ∈ ts → f.isInteger = true := by
    intro f hf
    simp only [ts, List.mem_cons, List.not_mem_nil, or_false, reduceCtorEq, false_or,
      faces.injEq] at hf
    rcases hf with rfl | rfl <;> rfl
  have hshown : Apart ts shown :=
    .cons [' '] (by decide) (List.all_eq_true.1 rfl) <|
    .cons ['\t'] (by decide) (List.all_eq_true.1 rfl) <|
    .cons ['\n'] (by decide) (List.all_eq_true.1 rfl) <|
    .cons ['\r', '\n'] (by decide) (List.all_eq_true.1 rfl) <|
    .cons [' '] (by decide) (List.all_eq_true.1 rfl) <|
    .cons [' ', ' '] (by decide) (List.all_eq_true.1 rfl) <|
    .cons [' '] (by decide) (List.all_eq_true.1 rfl) (.single _)
  exact ⟨hread, hfaces, hshown, ofText_apart hread hfaces hshown⟩

end Token

end DiceNotation
