import DiceNotation.Decimal.Layout
import DiceNotation.Proofs.Decimal.FewestDigits
import DiceNotation.Proofs.Token.Literals
import DiceNotation.Proofs.Token.Scanning

/-!
# Written decimals read back

Positional notation fills up with zeros, which changes the digits and the exponent of a decimal but
not its number. With a power of ten the digits stay as they are. Both have a point, unless a lone
digit is written with a power of ten, and both are read as the float nearest to the decimal.

* `point_mem_text_iff`: where there is a point.
* `float?_text`: what a text with a point is read as.
-/

namespace DiceNotation.Decimal

open Binary64
open Lexeme (EndsRun endsRun_nil endsRun_cons)

/-- A text with a minus sign in front, if it is negative. -/
def signed (negative : Bool) (cs : List Char) : List Char := if negative then '-' :: cs else cs

theorem mem_signed_iff (negative : Bool) {c : Char} {cs : List Char} (hc : c ≠ '-') :
    c ∈ signed negative cs ↔ c ∈ cs := by
  cases negative with
  | true => exact List.mem_cons.trans (or_iff_right hc)
  | false => exact Iff.rfl

/-! ## Runs of digits -/

theorem ofDigits_eq (cs : List Char) : ofDigits cs = Nat.ofDigitChars 10 cs 0 :=
  Nat.ofDigitChars_eq_foldl.symm

theorem ofDigits_append (cs ds : List Char) :
    ofDigits (cs ++ ds) = 10 ^ ds.length * ofDigits cs + ofDigits ds := by
  rw [ofDigits_eq, ofDigits_eq, ofDigits_eq, Nat.ofDigitChars_append,
    Nat.ofDigitChars_eq_ofDigitChars_zero]

theorem ofDigits_zeros (n : Nat) : ofDigits (List.replicate n '0') = 0 := by
  rw [ofDigits_eq, Nat.ofDigitChars_replicate_zero, Nat.mul_zero]

theorem isDigit_of_mem_zeros {n : Nat} {c : Char} (h : c ∈ List.replicate n '0') :
    c.isDigit = true := by
  rw [List.eq_of_mem_replicate h]
  rfl

theorem span_isDigit {cs rest : List Char} (hcs : ∀ c ∈ cs, c.isDigit)
    (hrest : EndsRun Char.isDigit rest) : (cs ++ rest).span Char.isDigit = (cs, rest) := by
  rw [List.span_eq_takeWhile_dropWhile, Lexeme.takeWhile_append_of_endsRun hcs hrest,
    Lexeme.dropWhile_append_of_endsRun hcs hrest]

theorem splitSign_signed {c : Char} (hc : c.isDigit) (negative : Bool) (cs : List Char) :
    splitSign (signed negative (c :: cs)) = (negative, c :: cs) := by
  cases negative with
  | true => rfl
  | false =>
    have hminus : c ≠ '-' := by
      rintro rfl
      contradiction
    have hplus : c ≠ '+' := by
      rintro rfl
      contradiction
    change splitSign (c :: cs) = _
    unfold splitSign
    split
    · next h => exact absurd (List.cons.inj h).1 hminus
    · next h => exact absurd (List.cons.inj h).1 hplus
    · rfl

/-- Digits on both sides of a point, and what follows them, are read as one decimal. -/
theorem float?_of_point (negative : Bool) {whole fraction rest : List Char} {e : Int}
    (hne : whole ≠ []) (hwhole : ∀ c ∈ whole, c.isDigit) (hfraction : ∀ c ∈ fraction, c.isDigit)
    (hrest : EndsRun Char.isDigit rest) (he : exponent? rest = some e) :
    float? (signed negative (whole ++ '.' :: (fraction ++ rest))) =
      some (ofMagnitude negative
        (magnitude ⟨ofDigits (whole ++ fraction), e - fraction.length⟩)) := by
  obtain ⟨c, cs, rfl⟩ := List.exists_cons_of_ne_nil hne
  have hsplit : splitSign (signed negative (c :: cs ++ '.' :: (fraction ++ rest))) =
      (negative, c :: cs ++ '.' :: (fraction ++ rest)) :=
    splitSign_signed (hwhole c List.mem_cons_self) negative _
  have hpoint : (c :: cs ++ '.' :: (fraction ++ rest)).span Char.isDigit =
      (c :: cs, '.' :: (fraction ++ rest)) := span_isDigit hwhole (endsRun_cons rfl _)
  rw [float?]
  simp only [hsplit, hpoint, span_isDigit hfraction hrest, he, List.isEmpty_cons, Bool.false_and,
    Bool.false_eq_true, if_false, Option.map_some]

/-! ## Positional notation -/

/-- One side of a point: a zero stands for an empty one. -/
def side (cs : List Char) : List Char := if cs.isEmpty then ['0'] else cs

theorem pointed_eq (whole : Nat) (digits : List Char) :
    pointed whole digits = side (digits.take whole) ++ '.' :: side (digits.drop whole) := rfl

theorem side_ne_nil (cs : List Char) : side cs ≠ [] := by
  cases cs <;> exact List.cons_ne_nil _ _

theorem isDigit_of_mem_side {cs : List Char} (h : ∀ c ∈ cs, c.isDigit) :
    ∀ c ∈ side cs, c.isDigit := by
  cases cs with
  | nil =>
    intro c hc
    rw [List.mem_singleton.mp hc]
    rfl
  | cons d cs => exact h

theorem value_sides (whole fraction : List Char) :
    (⟨ofDigits (side whole ++ side fraction), 0 - ((side fraction).length : Int)⟩ : Decimal).value =
      (⟨ofDigits (whole ++ fraction), -(fraction.length : Int)⟩ : Decimal).value := by
  have hwhole : ofDigits (side whole) = ofDigits whole := by cases whole <;> rfl
  rw [value, value, ofDigits_append, ofDigits_append, hwhole]
  cases fraction with
  | nil =>
    have hside : ofDigits (side []) = 0 := rfl
    have hnil : ofDigits [] = 0 := rfl
    have hlength : (side []).length = 1 := rfl
    have hten : (10 : ℚ) ^ (0 - ((1 : Nat) : Int)) = 1 / 10 := by norm_num
    rw [hside, hnil, hlength, hten, List.length_nil]
    push_cast
    ring
  | cons c cs =>
    have hside : side (c :: cs) = c :: cs := rfl
    rw [hside, zero_sub]

/-- A point among digits is read as the decimal with all of them. -/
theorem float?_pointed {negative : Bool} {whole : Nat} {digits : List Char}
    (hdigits : ∀ c ∈ digits, c.isDigit) (hle : whole ≤ digits.length) :
    float? (signed negative (pointed whole digits)) =
      some (ofMagnitude negative (magnitude ⟨ofDigits digits, whole - digits.length⟩)) := by
  have htake := isDigit_of_mem_side fun c hc => hdigits c (List.mem_of_mem_take (i := whole) hc)
  have hdrop := isDigit_of_mem_side fun c hc => hdigits c (List.mem_of_mem_drop (i := whole) hc)
  have hread := float?_of_point negative (side_ne_nil _) htake hdrop (endsRun_nil _) rfl
  have hexponent : -((digits.drop whole).length : Int) = whole - digits.length := by
    rw [List.length_drop]
    omega
  rw [List.append_nil, ← pointed_eq, magnitude_congr (value_sides _ _), List.take_append_drop,
    hexponent] at hread
  exact hread

theorem isDigit_of_mem_append {cs ds : List Char} (hcs : ∀ c ∈ cs, c.isDigit)
    (hds : ∀ c ∈ ds, c.isDigit) : ∀ c ∈ cs ++ ds, c.isDigit :=
  List.forall_mem_append.mpr ⟨hcs, hds⟩

/-- Positional notation is a point among digits that stand for the same number. -/
theorem exists_positional_eq (d : Decimal) : ∃ whole digits,
    d.positional = pointed whole digits ∧ whole ≤ digits.length ∧ (∀ c ∈ digits, c.isDigit) ∧
      (⟨ofDigits digits, whole - digits.length⟩ : Decimal).value = d.value := by
  rw [positional]
  dsimp only
  split
  · next h =>
    generalize hzeros : List.replicate d.exponent.toNat '0' = zeros
    have hlength : zeros.length = d.exponent.toNat := by rw [← hzeros, List.length_replicate]
    refine ⟨_, _, rfl, by rw [List.length_append, hlength],
      isDigit_of_mem_append isDigit_of_mem fun c hc => isDigit_of_mem_zeros (hzeros ▸ hc), ?_⟩
    obtain ⟨n, hn⟩ := Int.eq_ofNat_of_zero_le h
    rw [ofDigits_append, ← hzeros, ofDigits_zeros, ofDigits_toDigits, List.length_append, hzeros,
      hlength, sub_self, value, value]
    simp [hn, mul_comm]
  · next h =>
    generalize hplaces : (-d.exponent).toNat = places
    generalize hzeros : List.replicate (places - (Nat.toDigits 10 d.digits).length) '0' = zeros
    have hlength : zeros.length = places - (Nat.toDigits 10 d.digits).length := by
      rw [← hzeros, List.length_replicate]
    refine ⟨_, _, rfl, Nat.sub_le _ _,
      isDigit_of_mem_append (fun c hc => isDigit_of_mem_zeros (hzeros ▸ hc)) isDigit_of_mem, ?_⟩
    have hexponent : (((zeros ++ Nat.toDigits 10 d.digits).length - places : Nat) : Int) -
        (zeros ++ Nat.toDigits 10 d.digits).length = d.exponent := by
      rw [List.length_append]
      omega
    rw [hexponent, ofDigits_append, ← hzeros, ofDigits_zeros, Nat.mul_zero, Nat.zero_add,
      ofDigits_toDigits]

theorem float?_positional (negative : Bool) (d : Decimal) :
    float? (signed negative d.positional) = some (ofMagnitude negative d.magnitude) := by
  obtain ⟨whole, digits, htext, hle, hdigits, hvalue⟩ := exists_positional_eq d
  rw [htext, float?_pointed hdigits hle, magnitude_congr hvalue]

/-! ## Powers of ten -/

/-- Several digits with a power of ten are read as the same digits. -/
theorem float?_scientific (negative : Bool) {d : Decimal} (h : 10 ≤ d.digits) :
    float? (signed negative d.scientific) = some (ofMagnitude negative d.magnitude) := by
  have hlength : 1 < (Nat.toDigits 10 d.digits).length := by
    by_contra hle
    have hlt := (Nat.length_toDigits_le_iff (b := 10) (by omega) Nat.one_pos).mp (not_lt.mp hle)
    omega
  have hdigits := isDigit_of_mem (n := d.digits)
  have hvalue := ofDigits_toDigits d.digits
  rw [scientific]
  generalize Nat.toDigits 10 d.digits = digits at *
  obtain ⟨c, cs, rfl⟩ := List.exists_cons_of_length_pos (Nat.zero_lt_of_lt hlength)
  obtain ⟨hc, hcs⟩ := List.forall_mem_cons.mp hdigits
  generalize hpower : (toString (d.exponent + (c :: cs).length - 1)).toList = power
  have hinteger : exponent? ('e' :: power) = some (d.exponent + (c :: cs).length - 1) :=
    hpower ▸ integer?_toString _
  have hread := float?_of_point negative (List.cons_ne_nil c [])
    (fun x hx => List.mem_singleton.mp hx ▸ hc) hcs (endsRun_cons rfl _) hinteger
  have hexponent : d.exponent + (c :: cs).length - 1 - cs.length = d.exponent := by
    rw [List.length_cons]
    omega
  rw [List.singleton_append, List.singleton_append, hvalue, hexponent] at hread
  rw [if_neg (by omega)]
  exact hread

/-! ## Points -/

theorem digits_lt_ten_iff {d : Decimal} : (Nat.toDigits 10 d.digits).length ≤ 1 ↔ d.digits < 10 :=
  Nat.length_toDigits_le_iff (by omega) Nat.one_pos

theorem point_not_mem_of_digits {cs : List Char} (h : ∀ c ∈ cs, c.isDigit) : '.' ∉ cs := by
  intro hmem
  have hdigit := h '.' hmem
  contradiction

theorem point_mem_positional (d : Decimal) : '.' ∈ d.positional := by
  obtain ⟨whole, digits, htext, _⟩ := exists_positional_eq d
  rw [htext, pointed_eq]
  exact List.mem_append_right _ List.mem_cons_self

theorem point_mem_scientific_iff {d : Decimal} : '.' ∈ d.scientific ↔ 10 ≤ d.digits := by
  have hexponent (z : Int) : '.' ∉ 'e' :: (toString z).toList := by
    intro hmem
    rcases List.mem_cons.mp hmem with hmem | hmem
    · contradiction
    · rcases isDigit_or_minus_of_mem hmem with h | h <;> revert h <;> decide
  rw [scientific, List.mem_append, or_iff_left (hexponent _)]
  split
  · next h =>
    have hlt := digits_lt_ten_iff.mp h
    exact iff_of_false (point_not_mem_of_digits isDigit_of_mem) (by omega)
  · next h =>
    have hge := mt digits_lt_ten_iff.mpr h
    exact iff_of_true (List.mem_append_right _ List.mem_cons_self) (by omega)

/-- There is no point if and only if a lone digit is written with a power of ten. -/
theorem point_mem_text_iff {layout : Layout} {d : Decimal} : '.' ∈ d.text layout ↔
    (d.digits < 10 → layout.least ≤ d.exponent ∧ d.exponent ≤ layout.greatest) := by
  have hlength : d.digits < 10 → (Nat.toDigits 10 d.digits).length = 1 := fun h =>
    (digits_lt_ten_iff.mpr h).antisymm Nat.length_toDigits_pos
  rw [text]
  split
  · next h =>
    refine iff_of_true (point_mem_positional d) fun hlt => ?_
    rw [hlength hlt] at h
    omega
  · next h =>
    rw [point_mem_scientific_iff]
    constructor
    · intro hge hlt
      omega
    · intro himp
      by_contra hlt
      refine h ?_
      rw [hlength (by omega)]
      have := himp (by omega)
      omega

/-- A text without a point has a power of ten. -/
theorem e_mem_text {layout : Layout} {d : Decimal} (h : '.' ∉ d.text layout) :
    'e' ∈ d.text layout := by
  rw [text] at h ⊢
  split
  · next hwindow =>
    rw [if_pos hwindow] at h
    exact absurd (point_mem_positional d) h
  · rw [scientific]
    exact List.mem_append_right _ List.mem_cons_self

/-- A text with a point is read as the float nearest to the decimal. -/
theorem float?_text (layout : Layout) (negative : Bool) {d : Decimal} (h : '.' ∈ d.text layout) :
    float? (signed negative (d.text layout)) = some (ofMagnitude negative d.magnitude) := by
  rw [text] at h ⊢
  split
  · exact float?_positional negative d
  · next hwindow =>
    rw [if_neg hwindow] at h
    exact float?_scientific negative (point_mem_scientific_iff.mp h)

/-! ## Characters -/

theorem mem_positional {d : Decimal} {c : Char} (h : c ∈ d.positional) : c.isDigit ∨ c = '.' := by
  obtain ⟨whole, digits, htext, _, hdigits, _⟩ := exists_positional_eq d
  have htake := isDigit_of_mem_side fun c hc => hdigits c (List.mem_of_mem_take (i := whole) hc)
  have hdrop := isDigit_of_mem_side fun c hc => hdigits c (List.mem_of_mem_drop (i := whole) hc)
  rw [htext, pointed_eq, List.mem_append, List.mem_cons] at h
  rcases h with h | h | h
  · exact .inl (htake c h)
  · exact .inr h
  · exact .inl (hdrop c h)

theorem mem_scientific {d : Decimal} {c : Char} (h : c ∈ d.scientific) :
    c.isDigit ∨ c = '.' ∨ c = 'e' ∨ c = '-' := by
  have hdigits := isDigit_of_mem (n := d.digits)
  rw [scientific, List.mem_append, List.mem_cons] at h
  rcases h with h | h | h
  · split at h
    · exact .inl (hdigits c h)
    · rcases List.mem_append.mp h with h | h
      · exact .inl (hdigits c (List.mem_of_mem_take h))
      · rcases List.mem_cons.mp h with h | h
        · exact .inr (.inl h)
        · exact .inl (hdigits c (List.mem_of_mem_drop h))
  · exact .inr (.inr (.inl h))
  · rcases isDigit_or_minus_of_mem h with h | h
    · exact .inl h
    · exact .inr (.inr (.inr h))

theorem mem_text {layout : Layout} {d : Decimal} {c : Char} (h : c ∈ d.text layout) :
    c.isDigit ∨ c = '.' ∨ c = 'e' ∨ c = '-' := by
  rw [text] at h
  split at h
  · exact (mem_positional h).imp_right .inl
  · exact mem_scientific h

end DiceNotation.Decimal
