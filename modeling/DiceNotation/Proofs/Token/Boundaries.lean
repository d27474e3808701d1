import DiceNotation.Proofs.Token.Scanning

/-!
# Where lexemes end

A lexeme goes on for as long as it can: a run up to another kind of character, an operator up to its
longest spelling, a list that nothing closes up to the end. What made it end also does so when
less of the text follows, so a text that is cut between two lexemes has the lexemes it had.

* `ofText_text_append`: a lexeme is found again before whatever it ends before.
* `ofText_flatMap_text`: the lexemes in front of a cut are those of the text in front of it.
* `ofText_error_locates`: the piece that a text is refused for, and that all before it is in order.
-/

namespace DiceNotation

namespace Lexeme

/-! ## Boundaries -/

/-- Whether a lexeme holds what a lexeme of its kind can hold. -/
def IsWhole : Lexeme → Prop
  | blank cs => cs ≠ [] ∧ ∀ c ∈ cs, isSeparator c = true
  | digits cs => cs ≠ [] ∧ ∀ c ∈ cs, c.isDigit = true
  | faces inner | unclosed inner => ']' ∉ inner
  | op o w => (w, o) ∈ Operator.spellings
  | unknown c => isMark c = false ∧ Operator.spellings.lookup [c] = none
  | fudge | opened | closed | plus | minus => True

/-- Whether a lexeme goes no further than to the rest of the text. -/
def EndsBefore : Lexeme → List Char → Prop
  | blank _, rest => EndsRun isSeparator rest
  | digits _, rest => EndsRun Char.isDigit rest
  | unclosed _, rest => rest = []
  | op _ w, rest => EndsSpelling w rest
  | unknown c, rest => EndsSpelling [c] rest
  | faces _, _ | fudge, _ | opened, _ | closed, _ | plus, _ | minus, _ => True

theorem mem_head?_append {cs : List Char} {c : Char} (h : c ∈ cs.head?) (rest : List Char) :
    c ∈ (cs ++ rest).head? := by
  cases cs with
  | nil => cases h
  | cons d cs => exact h

/-- What ends a lexeme is the character behind it, if there is one. -/
theorem EndsBefore.of_append {x : Lexeme} {cs rest : List Char} (h : x.EndsBefore (cs ++ rest)) :
    x.EndsBefore cs := by
  cases x with
  | blank | digits | op | unknown => exact fun c hc => h c (mem_head?_append hc rest)
  | unclosed => exact (List.append_eq_nil_iff.mp h).1
  | faces | fudge | opened | closed | plus | minus => trivial

/-! ## The first lexeme of a text -/

theorem endsRun_dropWhile (p : Char → Bool) (cs : List Char) : EndsRun p (cs.dropWhile p) := by
  intro c hc
  have hstop := List.head?_dropWhile_not p cs
  rw [Option.mem_def.mp hc] at hstop
  exact hstop

theorem mem_spellings_of_lookup {w : List Char} {o : Operator}
    (h : Operator.spellings.lookup w = some o) : (w, o) ∈ Operator.spellings := by
  obtain ⟨before, after, hsplit, -⟩ := List.lookup_eq_some_iff.mp h
  rw [hsplit]
  exact List.mem_append_right _ List.mem_cons_self

theorem endsSpelling_of_lookup {w rest : List Char}
    (h : ∀ c ∈ rest.head?, Operator.spellings.lookup (w ++ [c]) = none) : EndsSpelling w rest := by
  intro c hc e he heq
  have hfound := lookup_spelling e he
  rw [heq, h c hc] at hfound
  cases hfound

theorem ends_of_operator? {cs rest : List Char} {x : Lexeme}
    (h : operator? cs = some (x, rest)) : x.IsWhole ∧ x.EndsBefore rest := by
  unfold operator? at h
  split at h
  · next o ho =>
    obtain ⟨rfl, rfl⟩ := Prod.mk.inj (Option.some.inj h)
    refine ⟨mem_spellings_of_lookup ho, fun c hc e he heq => ?_⟩
    -- no spelling has three characters
    have hlong := length_spelling e he
    have hrest : (cs.drop 2).length ≠ 0 := by
      rw [ne_eq, List.length_eq_zero_iff]
      exact List.ne_nil_of_mem (List.mem_of_mem_head? hc)
    rw [heq, List.length_append, List.length_take, List.length_singleton] at hlong
    rw [List.length_drop] at hrest
    omega
  · next hlong =>
    split at h
    · next o ho =>
      obtain ⟨rfl, rfl⟩ := Prod.mk.inj (Option.some.inj h)
      refine ⟨mem_spellings_of_lookup ho, endsSpelling_of_lookup fun c hc => ?_⟩
      cases cs with
      | nil => cases hc
      | cons a cs =>
        cases cs with
        | nil => cases hc
        | cons b cs =>
          cases hc
          exact hlong
    · cases h

theorem ends_of_not_operator? {c : Char} {cs : List Char} (h : operator? (c :: cs) = none) :
    Operator.spellings.lookup [c] = none ∧ EndsSpelling [c] cs := by
  unfold operator? at h
  split at h
  · cases h
  · next hlong =>
    split at h
    · cases h
    · next hshort =>
      refine ⟨hshort, endsSpelling_of_lookup fun d hd => ?_⟩
      cases cs with
      | nil => cases hd
      | cons b cs =>
        cases hd
        exact hlong

theorem holds_of_mem_takeWhile {p : Char → Bool} {c : Char} {cs : List Char}
    (h : c ∈ cs.takeWhile p) : p c = true :=
  List.all_eq_true.mp List.all_takeWhile c h

theorem ends_list (cs : List Char) : (list cs).1.IsWhole ∧ (list cs).1.EndsBefore (list cs).2 := by
  have hinner : ']' ∉ cs.takeWhile (· != ']') := by
    intro hmem
    have hkept := holds_of_mem_takeWhile hmem
    contradiction
  unfold list
  split
  · exact ⟨hinner, rfl⟩
  · exact ⟨hinner, trivial⟩

/-- The first lexeme of a text goes up to the rest. -/
theorem ends_next (c : Char) (cs : List Char) :
    (next c cs).1.IsWhole ∧ (next c cs).1.EndsBefore (next c cs).2 := by
  by_cases hmark : isMark c = false
  · rw [next_of_not_isMark hmark]
    cases h : operator? (c :: cs) with
    | none =>
      obtain ⟨hshort, hends⟩ := ends_of_not_operator? h
      exact ⟨⟨hmark, hshort⟩, hends⟩
    | some found => exact ends_of_operator? h
  · rw [Bool.not_eq_false, isMark, Bool.or_eq_true, Bool.or_eq_true] at hmark
    unfold next
    split
    · next hsep =>
      have hrun : ∀ d ∈ c :: cs.takeWhile isSeparator, isSeparator d = true :=
        List.forall_mem_cons.mpr ⟨hsep, fun d hd => holds_of_mem_takeWhile hd⟩
      exact ⟨⟨List.cons_ne_nil _ _, hrun⟩, endsRun_dropWhile _ _⟩
    split
    · next hdigit =>
      have hrun : ∀ d ∈ c :: cs.takeWhile Char.isDigit, d.isDigit = true :=
        List.forall_mem_cons.mpr ⟨hdigit, fun d hd => holds_of_mem_takeWhile hd⟩
      exact ⟨⟨List.cons_ne_nil _ _, hrun⟩, endsRun_dropWhile _ _⟩
    split
    · exact ends_list cs
    iterate 5 exact ⟨trivial, trivial⟩
    simp_all

/-! ## Lexemes found again -/

theorem ofText_blank {cs rest : List Char} (hne : cs ≠ [])
    (hcs : ∀ c ∈ cs, isSeparator c = true) (hrest : EndsRun isSeparator rest) :
    ofText (cs ++ rest) = blank cs :: ofText rest := by
  cases cs with
  | nil => contradiction
  | cons c cs =>
    obtain ⟨hc, htail⟩ := List.forall_mem_cons.mp hcs
    have hnext : next c (cs ++ rest) = (blank (c :: cs), rest) := by
      unfold next
      rw [if_pos hc, takeWhile_append_of_endsRun htail hrest,
        dropWhile_append_of_endsRun htail hrest]
    rw [List.cons_append, ofText_cons, hnext]

theorem ofText_unclosed {inner : List Char} (h : ']' ∉ inner) :
    ofText ('[' :: inner) = [unclosed inner] := by
  have hinner : ∀ c ∈ inner, (c != ']') = true := by
    intro c hc
    rw [bne_iff_ne]
    rintro rfl
    exact h hc
  have hlist : list inner = (unclosed inner, []) := by
    have htake := takeWhile_append_of_endsRun hinner (endsRun_nil _)
    have hdrop := dropWhile_append_of_endsRun hinner (endsRun_nil _)
    rw [List.append_nil] at htake hdrop
    rw [list, htake, hdrop]
  rw [ofText_cons]
  change (list inner).1 :: ofText (list inner).2 = _
  rw [hlist, ofText]

theorem ofText_unknown {c : Char} {rest : List Char} (hmark : isMark c = false)
    (hc : Operator.spellings.lookup [c] = none) (hrest : EndsSpelling [c] rest) :
    ofText (c :: rest) = unknown c :: ofText rest := by
  have hnone : operator? (c :: rest) = none := by
    cases rest with
    | nil => simp only [operator?, List.take_succ_cons, List.take_nil, hc]
    | cons d rest =>
      have hpair : Operator.spellings.lookup [c, d] = none :=
        lookup_eq_none_of_endsSpelling hrest
      simp only [operator?, List.take_succ_cons, List.take_zero, hpair, hc]
  rw [ofText_cons, next_of_not_isMark hmark, hnone]
  rfl

/-- A lexeme is found again before whatever it ends before. -/
theorem ofText_text_append {x : Lexeme} {rest : List Char} (hx : x.IsWhole)
    (hrest : x.EndsBefore rest) : ofText (x.text ++ rest) = x :: ofText rest := by
  cases x with
  | blank cs => exact ofText_blank hx.1 hx.2 hrest
  | digits cs => exact ofText_digits hx.1 hx.2 hrest
  | faces inner =>
    rw [text, List.append_assoc]
    exact ofText_faces hx rest
  | unclosed inner =>
    obtain rfl : rest = [] := hrest
    rw [List.append_nil, ofText]
    exact ofText_unclosed hx
  | op o w => exact ofText_spelling hx hrest
  | unknown c => exact ofText_unknown hx.1 hx.2 hrest
  | fudge | opened | closed | plus | minus => exact ofText_single rfl rest

/-! ## Texts that are cut -/

/-- The lexemes in front of a cut are those of the text in front of it. -/
theorem ofText_flatMap_text {cs : List Char} {xs ys : List Lexeme} (h : ofText cs = xs ++ ys) :
    ofText (xs.flatMap text) = xs := by
  induction xs generalizing cs with
  | nil => rw [List.flatMap_nil, ofText]
  | cons x xs ih =>
    cases cs with
    | nil =>
      rw [ofText] at h
      cases h
    | cons c cs =>
      rw [ofText_cons, List.cons_append] at h
      obtain ⟨hx, hrest⟩ := List.cons.inj h
      obtain ⟨hwhole, hends⟩ := ends_next c cs
      have htext : (next c cs).2 = xs.flatMap text ++ ys.flatMap text := by
        rw [← flatMap_text_ofText (next c cs).2, hrest, List.flatMap_append]
      rw [htext, hx] at hends
      rw [hx] at hwhole
      rw [List.flatMap_cons, ofText_text_append hwhole hends.of_append, ih hrest]

theorem isWhole_of_mem {cs : List Char} {x : Lexeme} (h : x ∈ ofText cs) : x.IsWhole := by
  induction cs using ofText.induct with
  | case1 =>
    rw [ofText] at h
    cases h
  | case2 c cs ih =>
    rw [ofText_cons] at h
    rcases List.mem_cons.mp h with rfl | h
    · exact (ends_next c cs).1
    · exact ih h

theorem IsWhole.text_ne_nil {x : Lexeme} (h : x.IsWhole) : x.text ≠ [] := by
  cases x with
  | blank cs | digits cs => exact h.1
  | op o w =>
    have hlength := length_spelling _ h
    rintro rfl
    simp at hlength
  | faces | unclosed | unknown | fudge | opened | closed | plus | minus =>
    exact List.cons_ne_nil _ _

/-! ## Lexemes that are no tokens -/

/-- A lexeme is refused as the piece of the text that it is. -/
theorem piece?_of_token_error {x : Lexeme} {position : Nat} {previous : Option Token}
    {e : ParseError} (h : x.token position previous = .error e) :
    e.piece? = some (x.excerpt position) := by
  cases x with
  | blank | opened | closed | plus | minus | op => cases h
  | unclosed | unknown =>
    cases h
    rfl
  | digits | faces | fudge =>
    simp only [token] at h
    split at h
    · cases h
    · cases h
      rfl

end Lexeme

theorem byteLength_pos {cs : List Char} (h : cs ≠ []) : 0 < byteLength cs := by
  rw [byteLength, Nat.pos_iff_ne_zero, ne_eq, String.utf8ByteSize_eq_zero_iff,
    String.ofList_eq_empty_iff]
  exact h

namespace Token

/-- The first lexeme that is no token is refused, after those before it have been read. -/
theorem ofLexemes_error {position : Nat} {previous : Option Token} {xs : List Lexeme}
    {e : ParseError} (h : ofLexemes position previous xs = .error e) :
    ∃ ys x zs ts, xs = ys ++ x :: zs ∧ ofLexemes position previous ys = .ok ts ∧
      e.piece? = some (x.excerpt (position + byteLength (ys.flatMap Lexeme.text))) := by
  induction xs generalizing position previous with
  | nil => cases h
  | cons x xs ih =>
    simp only [ofLexemes] at h
    split at h
    · next ht =>
      cases h
      exact ⟨[], x, xs, [], rfl, rfl, Lexeme.piece?_of_token_error ht⟩
    · next ht =>
      obtain ⟨ys, y, zs, ts, rfl, hts, hpiece⟩ := ih h
      refine ⟨x :: ys, y, zs, ts, rfl, ?_, ?_⟩
      · simp only [ofLexemes, ht, hts]
      · rw [hpiece, List.flatMap_cons, byteLength_append, Nat.add_assoc]
    · next t ht =>
      cases hus : ofLexemes (position + byteLength x.text) (some t) xs with
      | ok us =>
        rw [hus] at h
        cases h
      | error c =>
        rw [hus] at h
        cases h
        obtain ⟨ys, y, zs, ts, rfl, hts, hpiece⟩ := ih hus
        refine ⟨x :: ys, y, zs, t :: ts, rfl, ?_, ?_⟩
        · simp only [ofLexemes, ht, hts]
          rfl
        · rw [hpiece, List.flatMap_cons, byteLength_append, Nat.add_assoc]

/-- A text that is refused is refused for a piece of it, which stands where the error says, both
ends between characters. What stands in front of the piece can be cut into tokens. -/
theorem ofText_error_locates {cs : List Char} {e : ParseError} (h : ofText cs = .error e) :
    ∃ p, e.piece? = some p ∧ p.start < p.stop ∧ p.stop ≤ byteLength cs ∧
      ∃ before after, cs = before ++ p.text ++ after ∧ p.start = byteLength before ∧
        p.stop = byteLength (before ++ p.text) ∧ ∃ ts, ofText before = .ok ts := by
  obtain ⟨ys, x, zs, ts, hsplit, hts, hpiece⟩ := ofLexemes_error h
  rw [Nat.zero_add] at hpiece
  have hlexemes := Lexeme.ofText_flatMap_text hsplit
  have htext : cs = ys.flatMap Lexeme.text ++ x.text ++ zs.flatMap Lexeme.text := by
    rw [← Lexeme.flatMap_text_ofText cs, hsplit, List.flatMap_append, List.flatMap_cons,
      List.append_assoc]
  have hx : x ∈ Lexeme.ofText cs := hsplit ▸ List.mem_append_right _ List.mem_cons_self
  have hpos := byteLength_pos (Lexeme.isWhole_of_mem hx).text_ne_nil
  have hread : ofText (ys.flatMap Lexeme.text) = .ok ts := by rw [ofText, hlexemes, hts]
  refine ⟨_, hpiece, ?_, ?_, ys.flatMap Lexeme.text, zs.flatMap Lexeme.text, htext, rfl, ?_, ts,
    hread⟩
  · exact Nat.lt_add_of_pos_right hpos
  · rw [htext, byteLength_append, byteLength_append]
    exact Nat.le_add_right _ _
  · exact (byteLength_append _ _).symm

/-- In `1d[\u00A01]é2` the blank that does not separate takes two bytes, and so does the letter that
is no token. -/
theorem ofText_error_locates_wide :
    let cs := ['1', 'd', '[', '\u00A0', '1', ']', 'é', '2']
    let e := ParseError.unrecognized ⟨7, 9, ['é']⟩
    ofText cs = .error e ∧
    ∃ p, e.piece? = some p ∧ p.start < p.stop ∧ p.stop ≤ byteLength cs ∧
      ∃ before after, cs = before ++ p.text ++ after ∧ p.start = byteLength before ∧
        p.stop = byteLength (before ++ p.text) ∧ ∃ ts, ofText before = .ok ts := by
  intro cs e
  have hrefused : ofText cs = .error e := (ofText_eq_cut _).trans rfl
  exact ⟨hrefused, ofText_error_locates hrefused⟩

end Token

end DiceNotation
