import DiceNotation.Token.Reading

/-!
# Scanning

The first lexeme of a text depends on little of what follows it: a run of digits has to end, and
an operator must not go on to a longer spelling. So texts are scanned piece by piece.

* `ofText_digits`, `ofText_faces`, `ofText_single`, `ofText_spelling`: the first lexeme.
* `Scans.append`: pieces that scan to tokens, each before the next one, scan to all of them.
-/

namespace DiceNotation

namespace Lexeme

theorem ofText_cons (c : Char) (cs : List Char) :
    ofText (c :: cs) = (next c cs).1 :: ofText (next c cs).2 := by
  rw [ofText]

/-! ## Runs -/

/-- A run of characters of a kind ends before the text. -/
def EndsRun (p : Char → Bool) (rest : List Char) : Prop := ∀ c ∈ rest.head?, p c = false

theorem endsRun_nil (p : Char → Bool) : EndsRun p [] := nofun

theorem endsRun_cons {p : Char → Bool} {c : Char} (h : p c = false) (cs : List Char) :
    EndsRun p (c :: cs) := by
  intro d hd
  cases hd
  exact h

section Run

variable {p : Char → Bool} {cs rest : List Char}

theorem takeWhile_append_of_endsRun (hcs : ∀ c ∈ cs, p c = true) (hrest : EndsRun p rest) :
    (cs ++ rest).takeWhile p = cs := by
  have hstop : rest.takeWhile p = [] := by
    cases rest with
    | nil => rfl
    | cons c rest => exact List.takeWhile_cons_of_neg (by simp [hrest c rfl])
  rw [List.takeWhile_append_of_pos hcs, hstop, List.append_nil]

theorem dropWhile_append_of_endsRun (hcs : ∀ c ∈ cs, p c = true) (hrest : EndsRun p rest) :
    (cs ++ rest).dropWhile p = rest := by
  rw [List.dropWhile_append_of_pos hcs]
  cases rest with
  | nil => rfl
  | cons c rest => exact List.dropWhile_cons_of_neg (by simp [hrest c rfl])

end Run

theorem isSeparator_of_isDigit {c : Char} (h : c.isDigit = true) : isSeparator c = false := by
  rw [Bool.eq_false_iff]
  intro hsep
  simp only [isSeparator, Bool.or_eq_true, beq_iff_eq] at hsep
  rcases hsep with ((rfl | rfl) | rfl) | rfl <;> contradiction

theorem ofText_digits {cs rest : List Char} (hne : cs ≠ []) (hcs : ∀ c ∈ cs, c.isDigit = true)
    (hrest : EndsRun Char.isDigit rest) : ofText (cs ++ rest) = digits cs :: ofText rest := by
  cases cs with
  | nil => contradiction
  | cons c cs =>
    have hc : c.isDigit = true := hcs c List.mem_cons_self
    have htail : ∀ d ∈ cs, d.isDigit = true := fun d hd => hcs d (List.mem_cons_of_mem c hd)
    have hnext : next c (cs ++ rest) = (digits (c :: cs), rest) := by
      unfold next
      rw [if_neg (by simp [isSeparator_of_isDigit hc]), if_pos hc,
        takeWhile_append_of_endsRun htail hrest, dropWhile_append_of_endsRun htail hrest]
    rw [List.cons_append, ofText_cons, hnext]

theorem ofText_faces {inner : List Char} (h : ']' ∉ inner) (rest : List Char) :
    ofText ('[' :: inner ++ ']' :: rest) = faces inner :: ofText rest := by
  have hinner : ∀ c ∈ inner, (c != ']') = true := by
    intro c hc
    rw [bne_iff_ne]
    rintro rfl
    exact h hc
  have hend : EndsRun (· != ']') (']' :: rest) := endsRun_cons rfl rest
  have hlist : list (inner ++ ']' :: rest) = (faces inner, rest) := by
    rw [list, takeWhile_append_of_endsRun hinner hend, dropWhile_append_of_endsRun hinner hend]
  rw [List.cons_append, ofText_cons]
  change (list _).1 :: ofText (list _).2 = _
  rw [hlist]

/-! ## Single characters and operators -/

/-- The lexemes that one character decides. -/
def isSingle : Lexeme → Bool
  | fudge | opened | closed | plus | minus => true
  | _ => false

theorem ofText_single {x : Lexeme} (h : x.isSingle = true) (rest : List Char) :
    ofText (x.text ++ rest) = x :: ofText rest := by
  cases x
  case fudge | opened | closed | plus | minus => exact ofText_cons _ rest
  all_goals contradiction

/-- The characters with which a lexeme begins that is neither an operator nor unknown. -/
def isMark (c : Char) : Bool :=
  isSeparator c || c.isDigit || ['[', 'F', '(', ')', '+', '-'].contains c

theorem next_of_not_isMark {c : Char} (h : isMark c = false) (cs : List Char) :
    next c cs = (operator? (c :: cs)).getD (unknown c, cs) := by
  simp only [isMark, Bool.or_eq_false_iff, List.contains_eq_mem, decide_eq_false_iff_not,
    List.mem_cons, List.not_mem_nil, or_false, not_or] at h
  obtain ⟨⟨hsep, hdigit⟩, h⟩ := h
  unfold next
  rw [if_neg (by simp [hsep]), if_neg (by simp [hdigit])]
  split <;> simp_all

theorem head?_spelling :
    ∀ e ∈ Operator.spellings, (e.1.head?.any fun c => !isMark c) = true := by decide

theorem not_isMark_of_spelling {c : Char} {w : List Char} {o : Operator}
    (h : (c :: w, o) ∈ Operator.spellings) : isMark c = false := by
  have hany := head?_spelling _ h
  simpa using hany

theorem lookup_spelling : ∀ e ∈ Operator.spellings, Operator.spellings.lookup e.1 = some e.2 := by
  decide

theorem length_spelling : ∀ e ∈ Operator.spellings, e.1.length = 1 ∨ e.1.length = 2 := by decide

/-- No spelling begins with `w` and the first character of the text. -/
def EndsSpelling (w rest : List Char) : Prop :=
  ∀ c ∈ rest.head?, ∀ e ∈ Operator.spellings, e.1 ≠ w ++ [c]

theorem lookup_eq_none_of_endsSpelling {w rest : List Char} {c : Char}
    (h : EndsSpelling w (c :: rest)) : Operator.spellings.lookup (w ++ [c]) = none := by
  rw [List.lookup_eq_none_iff]
  intro e he
  have hne := h c rfl e he
  simpa using hne.symm

theorem operator?_append {w rest : List Char} {o : Operator} (h : (w, o) ∈ Operator.spellings)
    (hrest : EndsSpelling w rest) : operator? (w ++ rest) = some (op o w, rest) := by
  have hlookup : Operator.spellings.lookup w = some o := lookup_spelling _ h
  rcases length_spelling _ h with hlen | hlen
  · obtain ⟨c, rfl⟩ := List.length_eq_one_iff.mp hlen
    cases rest with
    | nil => simp only [operator?, List.append_nil, List.take_of_length_le, List.length_singleton,
        Nat.le_succ, hlookup, List.drop_succ_cons, List.drop_nil]
    | cons d rest =>
      have hnone : Operator.spellings.lookup [c, d] = none :=
        lookup_eq_none_of_endsSpelling hrest
      simp only [operator?, List.cons_append, List.nil_append, List.take_succ_cons, List.take_zero,
        hnone, hlookup, List.drop_succ_cons, List.drop_zero]
  · simp only [operator?, List.take_left' hlen, List.drop_left' hlen, hlookup]

theorem ofText_spelling {w rest : List Char} {o : Operator} (h : (w, o) ∈ Operator.spellings)
    (hrest : EndsSpelling w rest) : ofText (w ++ rest) = op o w :: ofText rest := by
  have hoperator := operator?_append h hrest
  cases w with
  | nil => exact absurd (length_spelling _ h) (by simp)
  | cons c w =>
    rw [List.cons_append] at hoperator
    rw [List.cons_append, ofText_cons, next_of_not_isMark (not_isMark_of_spelling h),
      hoperator]
    rfl

/-! ## What ends a spelling -/

/-- The characters with which operands begin. -/
def startsOperand (c : Char) : Bool := c.isDigit || ['[', '(', '+', '-', 'F'].contains c

theorem getLast?_spelling : ∀ e ∈ Operator.spellings, e.1.length = 2 →
    (e.1.getLast?.any fun c => !startsOperand c) = true := by decide

theorem endsSpelling_of_startsOperand {w : List Char} {c : Char} (hw : w ≠ [])
    (hc : startsOperand c = true) (cs : List Char) : EndsSpelling w (c :: cs) := by
  intro d hd e he heq
  cases hd
  have hlen : e.1.length = 2 := by
    have hpos := List.length_pos_iff.mpr hw
    have hle := length_spelling e he
    rw [heq, List.length_append, List.length_singleton] at hle ⊢
    omega
  have hlast := getLast?_spelling e he hlen
  rw [heq, List.getLast?_concat] at hlast
  simp [hc] at hlast

theorem length_spelling_of_factorial : ∀ e ∈ Operator.spellings, e.1.head? = some '!' →
    e.1.length = 1 := by decide

theorem endsSpelling_factorial (rest : List Char) : EndsSpelling ['!'] rest := by
  intro c hc e he heq
  have hlen := length_spelling_of_factorial e he (by rw [heq]; rfl)
  rw [heq] at hlen
  simp at hlen

end Lexeme

/-! ## Tokens -/

theorem byteLength_append (as bs : List Char) :
    byteLength (as ++ bs) = byteLength as + byteLength bs := by
  rw [byteLength, String.ofList_append, String.utf8ByteSize_append]
  rfl

namespace Token

/-- After the token `previous` and before the text `rest`, the text `cs` gives the tokens `ts`. -/
def Scans (previous : Option Token) (cs : List Char) (ts : List Token) (rest : List Char) : Prop :=
  ∀ position, ofLexemes position previous (Lexeme.ofText (cs ++ rest)) =
    (ofLexemes (position + byteLength cs) (ts.getLast?.or previous) (Lexeme.ofText rest)).map
      (ts ++ ·)

theorem Scans.append {previous : Option Token} {as bs rest : List Char} {ts us : List Token}
    (hts : Scans previous as ts (bs ++ rest)) (hus : Scans (ts.getLast?.or previous) bs us rest) :
    Scans previous (as ++ bs) (ts ++ us) rest := by
  intro position
  rw [List.append_assoc, hts, hus, byteLength_append, List.getLast?_append, Option.or_assoc,
    Nat.add_assoc]
  cases ofLexemes _ _ (Lexeme.ofText rest) with
  | error => rfl
  | ok vs => exact congrArg Except.ok (List.append_assoc ts us vs).symm

theorem Scans.of_lexeme {previous : Option Token} {x : Lexeme} {t : Token} {rest : List Char}
    (hx : Lexeme.ofText (x.text ++ rest) = x :: Lexeme.ofText rest)
    (ht : ∀ position, x.token position previous = .ok (some t)) :
    Scans previous x.text [t] rest := by
  intro position
  rw [hx]
  simp only [ofLexemes, ht]
  rfl

theorem Scans.of_single {previous : Option Token} {x : Lexeme} {t : Token}
    (hx : x.isSingle = true) (ht : ∀ position, x.token position previous = .ok (some t))
    (rest : List Char) : Scans previous x.text [t] rest :=
  .of_lexeme (Lexeme.ofText_single hx rest) ht

theorem Scans.ofText {cs : List Char} {ts : List Token} (h : Scans none cs ts []) :
    ofText cs = .ok ts := by
  have h := h 0
  rw [List.append_nil] at h
  rw [Token.ofText, h, Lexeme.ofText, ofLexemes]
  exact congrArg Except.ok (List.append_nil ts)

end Token

end DiceNotation
