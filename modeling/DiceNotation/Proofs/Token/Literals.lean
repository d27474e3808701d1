import DiceNotation.Die.Faces

/-!
# Literals read back

The texts of integers and face lists are read as what they are the texts of.

* `integer?_toString`: every 64-bit integer, also a negative one.
* `read?_listText`: a list of faces is read face by face, so that it reads back if its faces do.
* `read?_listText_of_integers`: this is so for integers.
-/

namespace DiceNotation

/-! ## Integers -/

namespace Decimal

theorem ofDigits_toDigits (n : Nat) : ofDigits (Nat.toDigits 10 n) = n := by
  have h := Nat.ofDigitChars_ten_toDigits (n := n)
  rw [Nat.ofDigitChars_eq_foldl] at h
  exact h

theorem splitSign_of_digits {cs : List Char} (h : ∀ c ∈ cs, c.isDigit) :
    splitSign cs = (false, cs) := by
  unfold splitSign
  split
  · have := h '-' List.mem_cons_self
    contradiction
  · have := h '+' List.mem_cons_self
    contradiction
  · rfl

theorem isDigit_of_mem {n : Nat} : ∀ c ∈ Nat.toDigits 10 n, c.isDigit :=
  fun _ hc => Nat.isDigit_of_mem_toDigits (by omega) (by omega) hc

theorem integer?_toDigits (n : Nat) : integer? (Nat.toDigits 10 n) = some (n : Int) := by
  have hall : (Nat.toDigits 10 n).all Char.isDigit = true := List.all_eq_true.mpr isDigit_of_mem
  simp [integer?, splitSign_of_digits isDigit_of_mem, ofDigits_toDigits, hall]

theorem integer?_minus_toDigits (n : Nat) :
    integer? ('-' :: Nat.toDigits 10 n) = some (-(n : Int)) := by
  have hall : (Nat.toDigits 10 n).all Char.isDigit = true := List.all_eq_true.mpr isDigit_of_mem
  simp [integer?, splitSign, ofDigits_toDigits, hall]

theorem toList_toString_of_nonneg {z : Int} (h : 0 ≤ z) :
    (toString z).toList = Nat.toDigits 10 z.toNat := by
  rw [Int.toString_eq_repr, Int.repr_eq_if, if_pos h, Nat.toList_repr]

theorem toList_toString_of_neg {z : Int} (h : z < 0) :
    (toString z).toList = '-' :: Nat.toDigits 10 (-z).toNat := by
  rw [Int.toString_eq_repr, Int.repr_eq_if, if_neg (by omega), String.toList_append,
    Nat.toList_repr]
  rfl

theorem integer?_toString (z : Int) : integer? (toString z).toList = some z := by
  by_cases h : 0 ≤ z
  · rw [toList_toString_of_nonneg h, integer?_toDigits]
    exact congrArg some (by omega)
  · rw [toList_toString_of_neg (by omega), integer?_minus_toDigits]
    exact congrArg some (by omega)

theorem isDigit_or_minus_of_mem {z : Int} {c : Char} (h : c ∈ (toString z).toList) :
    c.isDigit = true ∨ c = '-' := by
  by_cases hz : 0 ≤ z
  · rw [toList_toString_of_nonneg hz] at h
    exact .inl (isDigit_of_mem c h)
  · rw [toList_toString_of_neg (by omega)] at h
    rcases List.mem_cons.mp h with rfl | h
    · exact .inr rfl
    · exact .inl (isDigit_of_mem c h)

end Decimal

namespace Number

theorem integer?_toString (n : Int64) : integer? (toString n.toInt).toList = some n := by
  rw [integer?, Decimal.integer?_toString]
  exact int64?_eq_some_iff.mpr rfl

theorem literal?_toString (n : Int64) : literal? (toString n.toInt).toList = some (.int n) := by
  have hpoint : (toString n.toInt).toList.contains '.' = false := by
    rw [List.contains_eq_mem, decide_eq_false_iff_not]
    intro hmem
    rcases Decimal.isDigit_or_minus_of_mem hmem with h | h <;> revert h <;> decide
  rw [literal?, hpoint, integer?_toString]
  rfl

end Number

/-! ## Words between commas -/

namespace Text

/-- A character that neither separates the entries of a list nor is dropped around them. -/
def isSolid (c : Char) : Bool := c != ',' && !isBlank c

theorem isSolid_of_isDigit {c : Char} (h : c.isDigit = true) : isSolid c = true := by
  obtain ⟨hlo, hhi⟩ := Char.isDigit_iff_toNat.mp h
  have hcomma : c ≠ ',' := by
    rintro rfl
    contradiction
  have hblank : isBlank c = false := by
    simp only [isBlank, Bool.or_eq_false_iff, Bool.and_eq_false_iff, decide_eq_false_iff_not,
      beq_eq_false_iff_ne]
    simp only [Char.reduceToNat] at hlo hhi
    omega
  simp only [isSolid, hblank, bne_iff_ne.mpr hcomma, Bool.not_false, Bool.and_true]

theorem trim_cons_of_isBlank {c : Char} (h : isBlank c = true) (cs : List Char) :
    trim (c :: cs) = trim cs := by
  rw [trim, trim, List.dropWhile_cons_of_pos h]

theorem dropWhile_isBlank_of_solid {cs : List Char} (h : ∀ c ∈ cs, isSolid c) :
    cs.dropWhile isBlank = cs := by
  cases cs with
  | nil => rfl
  | cons c cs =>
    have hc := h c List.mem_cons_self
    simp only [isSolid, Bool.and_eq_true, Bool.not_eq_true'] at hc
    exact List.dropWhile_cons_of_neg (by simp [hc.2])

theorem trim_of_solid {cs : List Char} (h : ∀ c ∈ cs, isSolid c) : trim cs = cs := by
  have hrev : ∀ c ∈ cs.reverse, isSolid c := fun c hc => h c (List.mem_reverse.mp hc)
  rw [trim, dropWhile_isBlank_of_solid h, dropWhile_isBlank_of_solid hrev, List.reverse_reverse]

theorem comma_not_mem {cs : List Char} (h : ∀ c ∈ cs, isSolid c) : ',' ∉ cs := by
  intro hmem
  have := h ',' hmem
  contradiction

theorem map_trim_splitOn_blank (cs : List Char) :
    ((' ' :: cs).splitOn ',').map trim = (cs.splitOn ',').map trim := by
  rw [List.splitOn_cons_eq_if_modifyHead, if_neg (by decide)]
  cases h : cs.splitOn ',' with
  | nil => rfl
  | cons w ws => rw [List.modifyHead_cons, List.map_cons, List.map_cons, trim_cons_of_isBlank rfl]

/-- Solid words written with commas and blanks between them are found again. -/
theorem map_trim_splitOn_intercalate {ws : List (List Char)} (hne : ws ≠ [])
    (h : ∀ w ∈ ws, ∀ c ∈ w, isSolid c) :
    (([',', ' '].intercalate ws).splitOn ',').map trim = ws := by
  induction ws with
  | nil => contradiction
  | cons w ws ih =>
    have hw : ∀ c ∈ w, isSolid c := h w List.mem_cons_self
    by_cases hws : ws = []
    · subst hws
      rw [List.intercalate_singleton, List.splitOn_eq_singleton (comma_not_mem hw), List.map_cons,
        List.map_nil, trim_of_solid hw]
    · have hrest := ih hws fun v hv => h v (List.mem_cons_of_mem w hv)
      rw [List.intercalate_cons_of_ne_nil hws, List.append_assoc, List.cons_append,
        List.cons_append, List.nil_append,
        List.splitOn_append_cons_self_of_not_mem (comma_not_mem hw), List.map_cons,
        map_trim_splitOn_blank, hrest, trim_of_solid hw]

end Text

/-! ## Face lists -/

namespace Number

theorem toList_listText (xs : List Number) :
    (listText xs).toList = [',', ' '].intercalate (xs.map fun x => x.text.toList) := by
  rw [listText, String.toList_intercalate, List.map_map]
  rfl

theorem mem_listText {xs : List Number} {c : Char} (h : c ∈ (listText xs).toList) :
    c = ',' ∨ c = ' ' ∨ ∃ x ∈ xs, c ∈ x.text.toList := by
  rw [toList_listText] at h
  induction xs with
  | nil => simp at h
  | cons x xs ih =>
    by_cases hxs : xs = []
    · subst hxs
      rw [List.map_cons, List.map_nil, List.intercalate_singleton] at h
      exact .inr (.inr ⟨x, List.mem_cons_self, h⟩)
    · rw [List.map_cons, List.intercalate_cons_of_ne_nil (by simpa using hxs)] at h
      simp only [List.mem_append, List.mem_cons, List.not_mem_nil, or_false] at h
      rcases h with (h | h | h) | h
      · exact .inr (.inr ⟨x, List.mem_cons_self, h⟩)
      · exact .inl h
      · exact .inr (.inl h)
      · rcases ih h with h | h | ⟨y, hy, h⟩
        · exact .inl h
        · exact .inr (.inl h)
        · exact .inr (.inr ⟨y, List.mem_cons_of_mem x hy, h⟩)

end Number

namespace Faces

/-- The text of a face list is read face by face. -/
theorem read?_listText (f : Faces) (h : ∀ x ∈ f.toList, ∀ c ∈ x.text.toList, Text.isSolid c) :
    read? (Number.listText f.toList).toList =
      (f.toList.mapM fun x => Number.literal? x.text.toList).bind ofList? := by
  have hne : f.toList.map (fun x => x.text.toList) ≠ [] := by simpa using f.nonempty
  have hwords := Text.map_trim_splitOn_intercalate hne (by simpa using h)
  have htrim (ws : List (List Char)) : (ws.mapM fun face => Number.literal? (Text.trim face)) =
      (ws.map Text.trim).mapM Number.literal? := by rw [List.mapM_map]; rfl
  rw [read?, htrim, Number.toList_listText, hwords, List.mapM_map]
  rfl

/-- Whether all faces are integers. -/
def isInteger (f : Faces) : Bool := f.toList.all (·.toInt?.isSome)

theorem eq_int_of_isInteger {f : Faces} (h : f.isInteger = true) {x : Number}
    (hx : x ∈ f.toList) : ∃ n, x = .int n := by
  have hsome := List.all_eq_true.mp h x hx
  cases x with
  | int n => exact ⟨n, rfl⟩
  | float _ => contradiction

theorem isDigit_or_minus_of_isInteger {f : Faces} (h : f.isInteger = true) {x : Number}
    (hx : x ∈ f.toList) {c : Char} (hc : c ∈ x.text.toList) : c.isDigit = true ∨ c = '-' := by
  obtain ⟨n, rfl⟩ := eq_int_of_isInteger h hx
  exact Decimal.isDigit_or_minus_of_mem hc

theorem mapM_literal?_of_isInteger {xs : List Number} (h : ∀ x ∈ xs, ∃ n, x = Number.int n) :
    (xs.mapM fun x => Number.literal? x.text.toList) = some xs := by
  induction xs with
  | nil => rfl
  | cons x xs ih =>
    obtain ⟨n, rfl⟩ := h x List.mem_cons_self
    have hn : Number.literal? (Number.int n).text.toList = some (.int n) :=
      Number.literal?_toString n
    rw [List.mapM_cons, hn, ih fun y hy => h y (List.mem_cons_of_mem _ hy)]
    rfl

theorem eq_of_beq_of_integers {xs ys : List Number} (hxs : ∀ x ∈ xs, ∃ n, x = Number.int n)
    (hys : ∀ y ∈ ys, ∃ n, y = Number.int n) (h : (xs == ys) = true) : xs = ys := by
  induction xs generalizing ys with
  | nil =>
    cases ys with
    | nil => rfl
    | cons => contradiction
  | cons x xs ih =>
    cases ys with
    | nil => contradiction
    | cons y ys =>
      obtain ⟨m, rfl⟩ := hxs x List.mem_cons_self
      obtain ⟨n, rfl⟩ := hys y List.mem_cons_self
      rw [List.cons_beq_cons, Bool.and_eq_true] at h
      have htail : xs = ys := ih (fun z hz => hxs z (List.mem_cons_of_mem _ hz))
        (fun z hz => hys z (List.mem_cons_of_mem _ hz)) h.2
      rw [Number.beq_int.mp h.1, htail]

/-- Integer faces that are equal as numbers are the same faces. -/
theorem eq_of_beq_of_isInteger {f g : Faces} (hf : f.isInteger = true) (hg : g.isInteger = true)
    (h : (f == g) = true) : f = g := by
  have hlist : f.toList = g.toList := eq_of_beq_of_integers
    (fun _ hx => eq_int_of_isInteger hf hx) (fun _ hy => eq_int_of_isInteger hg hy) h
  cases f
  cases g
  cases hlist
  rfl

theorem bracket_not_mem_listText {f : Faces} (h : f.isInteger = true) :
    ']' ∉ (Number.listText f.toList).toList := by
  intro hmem
  rcases Number.mem_listText hmem with hc | hc | ⟨x, hx, hc⟩
  · contradiction
  · contradiction
  · rcases isDigit_or_minus_of_isInteger h hx hc with hc | hc <;> revert hc <;> decide

theorem toList_text (f : Faces) :
    f.text.toList = '[' :: (Number.listText f.toList).toList ++ [']'] := by
  rw [text, String.toList_append, String.toList_append]
  rfl

theorem read?_listText_of_integers {f : Faces} (h : f.isInteger = true) :
    read? (Number.listText f.toList).toList = some f := by
  have hsolid : ∀ x ∈ f.toList, ∀ c ∈ x.text.toList, Text.isSolid c := by
    intro x hx c hc
    rcases isDigit_or_minus_of_isInteger h hx hc with hc | rfl
    · exact Text.isSolid_of_isDigit hc
    · rfl
  rw [read?_listText f hsolid, mapM_literal?_of_isInteger fun x hx => eq_int_of_isInteger h hx]
  exact ofList?_toList f

end Faces

end DiceNotation
