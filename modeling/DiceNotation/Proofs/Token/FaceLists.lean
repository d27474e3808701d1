import DiceNotation.Proofs.Decimal.Texts
import DiceNotation.Proofs.Number.TotalOrder

/-!
# Face lists read back

Only a point tells a float from an integer. A face list is therefore read back from its text, entry
by entry, if and only if all its floats have a point. Those without one are NaN, the infinities, and
the floats that are so small or so large that they are written as a lone digit with a power of ten.

* `literal?_text`: a number with a point is read back, and `literal?_text_of_isPointless`: no other
  float is read at all.
* `read?_text_iff`: what the text of a face list is read as.
-/

namespace DiceNotation

open Binary64

theorem Floats.ofMagnitude_magnitude (x : Float) :
    ofMagnitude (isNegative x) (magnitude x) = x := by
  have hbits : (if isNegative x = true then signBit + magnitude x else magnitude x) =
      x.toBits.toNat := by
    rw [toNat_toBits]
    cases isNegative x <;> rfl
  rw [ofMagnitude, hbits, UInt64.ofNat_toNat, ofBits_toBits]

/-! ## Lone digits -/

namespace Decimal

/-- A lone digit stands for no more than a nine with a power of ten that is no smaller. -/
theorem value_le_nine {d : Decimal} {k : Int} (h : d.digits < 10) (hk : d.exponent ≤ k) :
    d.value ≤ (⟨9, k⟩ : Decimal).value := by
  have hdigits : (d.digits : ℚ) ≤ (9 : Nat) := by exact_mod_cast Nat.le_of_lt_succ h
  exact mul_le_mul hdigits (zpow_le_zpow_right₀ (by norm_num) hk) (ten_zpow_pos _).le
    (Nat.cast_nonneg _)

theorem one_le_value {d : Decimal} {k : Int} (h : d.digits ≠ 0) (hk : k ≤ d.exponent) :
    (⟨1, k⟩ : Decimal).value ≤ d.value := by
  have hdigits : ((1 : Nat) : ℚ) ≤ d.digits := by exact_mod_cast Nat.one_le_iff_ne_zero.mpr h
  exact mul_le_mul hdigits (zpow_le_zpow_right₀ (by norm_num) hk) (ten_zpow_pos _).le
    (Nat.cast_nonneg _)

/-- Lone digits that read as the same magnitude are on the same side of where positional notation
ends, though their powers of ten may differ. -/
theorem exponent_window {d d' : Decimal} (h : d.magnitude = d'.magnitude) (hzero : d.magnitude ≠ 0)
    (hd : d.digits < 10) (hd' : d'.digits < 10)
    (hwindow : floatLayout.least ≤ d.exponent ∧ d.exponent ≤ floatLayout.greatest) :
    floatLayout.least ≤ d'.exponent ∧ d'.exponent ≤ floatLayout.greatest := by
  have hpos := digits_ne_zero hzero
  have hpos' := digits_ne_zero (h ▸ hzero)
  have hlow : (⟨9, -5⟩ : Decimal).magnitude < (⟨1, -4⟩ : Decimal).magnitude := by decide
  have hhigh : (⟨9, 15⟩ : Decimal).magnitude < (⟨1, 16⟩ : Decimal).magnitude := by decide
  obtain ⟨hle, hge⟩ : -4 ≤ d.exponent ∧ d.exponent ≤ 15 := hwindow
  change -4 ≤ d'.exponent ∧ d'.exponent ≤ 15
  constructor
  · by_contra hlt
    have hupper := magnitude_mono (value_le_nine (k := -5) hd' (by omega))
    have hlower := magnitude_mono (one_le_value hpos hle)
    omega
  · by_contra hgt
    have hupper := magnitude_mono (value_le_nine hd hge)
    have hlower := magnitude_mono (one_le_value (k := 16) hpos' (by omega))
    omega

end Decimal

namespace Number

/-! ## The text of a float -/

/-- The text of a magnitude. -/
def magnitudeText (mag : Nat) : List Char :=
  if mag = infinity then ['i', 'n', 'f'] else (Decimal.shortest mag).text floatLayout

/-- The text of a float that is not NaN shows its sign and its magnitude. -/
theorem toList_floatText {x : Float} (h : magnitude x ≤ infinity) :
    (floatText x).toList = Decimal.signed (isNegative x) (magnitudeText (magnitude x)) := by
  have hunsigned : (if magnitude x = infinity then "inf" else
      String.ofList ((Decimal.shortest (magnitude x)).text floatLayout)).toList =
        magnitudeText (magnitude x) := by
    rw [magnitudeText]
    split
    · rfl
    · exact String.toList_ofList
  rw [← hunsigned, floatText]
  dsimp only
  rw [if_neg (not_lt.mpr h)]
  cases isNegative x with
  | true => rw [if_pos rfl, String.toList_append]; rfl
  | false => rw [if_neg Bool.false_ne_true]; rfl

theorem floatText_of_lt {x : Float} (h : infinity < magnitude x) : floatText x = "NaN" := by
  rw [floatText]
  exact if_pos h

/-! ## Numbers without a point -/

/-- Whether a number is a float without a point: NaN, an infinity, or one that a lone digit stands
for, with a power of ten that is not written positionally. -/
def IsPointless : Number → Prop
  | .int _ => False
  | .float x => infinity ≤ magnitude x ∨ magnitude x ≠ 0 ∧ ∃ d : Decimal,
      d.magnitude = magnitude x ∧ d.digits < 10 ∧
        (d.exponent < floatLayout.least ∨ floatLayout.greatest < d.exponent)

theorem point_mem_magnitudeText_iff {x : Float} (h : magnitude x ≤ infinity) :
    '.' ∈ magnitudeText (magnitude x) ↔ ¬IsPointless (.float x) := by
  rw [magnitudeText]
  split
  · next hinf => exact iff_of_false (by decide) fun hpoint => hpoint (.inl hinf.ge)
  · next hinf =>
    have hfinite : magnitude x < infinity := h.lt_of_ne hinf
    have hreads := Decimal.magnitude_shortest hfinite
    rw [Decimal.point_mem_text_iff]
    constructor
    · rintro himp (hge | ⟨hzero, d, hd, hdigits, houtside⟩)
      · omega
      · have hlone : (Decimal.shortest (magnitude x)).digits < 10 :=
          Decimal.digits_shortest_lt (n := 0) hfinite hd hdigits
        have hwindow := Decimal.exponent_window (hreads.trans hd.symm) (by rwa [hreads]) hlone
          hdigits (himp hlone)
        omega
    · intro hpoint hlone
      by_contra houtside
      refine hpoint (.inr ⟨fun hzero => houtside ?_, _, hreads, hlone, by omega⟩)
      -- zero is a lone digit too, but has no power of ten
      rw [hzero]
      decide

/-- A magnitude without a point has a letter. -/
theorem exists_letter {mag : Nat} (h : '.' ∉ magnitudeText mag) :
    ∃ c ∈ magnitudeText mag, c.isDigit = false ∧ c ≠ '+' ∧ c ≠ '-' := by
  rw [magnitudeText] at h ⊢
  split
  · exact ⟨'i', List.mem_cons_self, rfl, by decide, by decide⟩
  · next hinf =>
    rw [if_neg hinf] at h
    exact ⟨'e', Decimal.e_mem_text h, rfl, by decide, by decide⟩

theorem isSolid_of_mem_magnitudeText {mag : Nat} {c : Char} (h : c ∈ magnitudeText mag) :
    Text.isSolid c = true := by
  rw [magnitudeText] at h
  split at h
  · have hsolid : ['i', 'n', 'f'].all Text.isSolid = true := rfl
    exact List.all_eq_true.mp hsolid c h
  · rcases Decimal.mem_text h with hc | rfl | rfl | rfl
    · exact Text.isSolid_of_isDigit hc
    all_goals rfl

/-- The text of a number has neither commas nor blanks. -/
theorem isSolid_of_mem_text {x : Number} {c : Char} (h : c ∈ x.text.toList) :
    Text.isSolid c = true := by
  cases x with
  | int n =>
    rcases Decimal.isDigit_or_minus_of_mem h with hc | rfl
    · exact Text.isSolid_of_isDigit hc
    · rfl
  | float x =>
    have hmem : c ∈ (floatText x).toList := h
    rcases le_or_gt (magnitude x) infinity with hle | hgt
    · rw [toList_floatText hle] at hmem
      by_cases hminus : c = '-'
      · rw [hminus]
        rfl
      · exact isSolid_of_mem_magnitudeText ((Decimal.mem_signed_iff _ hminus).mp hmem)
    · have hsolid : ['N', 'a', 'N'].all Text.isSolid = true := rfl
      rw [floatText_of_lt hgt] at hmem
      exact List.all_eq_true.mp hsolid c hmem

/-! ## Reading the text of a number -/

theorem integer?_eq_none {cs : List Char} {c : Char} (hc : c ∈ cs) (hdigit : c.isDigit = false)
    (hplus : c ≠ '+') (hminus : c ≠ '-') : integer? cs = none := by
  have hmem : c ∈ (Decimal.splitSign cs).2 := by
    unfold Decimal.splitSign
    split
    · exact (List.mem_cons.mp hc).resolve_left hminus
    · exact (List.mem_cons.mp hc).resolve_left hplus
    · exact hc
  have hall : (Decimal.splitSign cs).2.all Char.isDigit = false :=
    List.all_eq_false.mpr ⟨c, hmem, by simp [hdigit]⟩
  have hnone : Decimal.integer? cs = none := by
    rw [Decimal.integer?]
    simp [hall]
  rw [integer?, hnone]
  rfl

/-- Without a point, only the digits of an integer are read. -/
theorem literal?_eq_none {cs : List Char} {c : Char} (hpoint : '.' ∉ cs) (hc : c ∈ cs)
    (hdigit : c.isDigit = false) (hplus : c ≠ '+') (hminus : c ≠ '-') : literal? cs = none := by
  have hcontains : cs.contains '.' = false := by simpa using hpoint
  rw [literal?, hcontains, if_neg Bool.false_ne_true, integer?_eq_none hc hdigit hplus hminus]
  rfl

theorem literal?_of_point {cs : List Char} (h : '.' ∈ cs) :
    literal? cs = (Decimal.float? cs).map .float := by
  have hcontains : cs.contains '.' = true := by simpa using h
  rw [literal?, hcontains, if_pos rfl]

/-- A number that is no float without a point is read back. -/
theorem literal?_text {x : Number} (h : ¬x.IsPointless) : literal? x.text.toList = some x := by
  cases x with
  | int n => exact literal?_toString n
  | float x =>
    have hfinite : magnitude x < infinity := not_le.mp fun hge => h (.inl hge)
    have hpoint := (point_mem_magnitudeText_iff hfinite.le).mpr h
    have hmem := (Decimal.mem_signed_iff (isNegative x) (by decide)).mpr hpoint
    change literal? (floatText x).toList = _
    rw [toList_floatText hfinite.le, literal?_of_point hmem]
    rw [magnitudeText, if_neg hfinite.ne] at hpoint ⊢
    rw [Decimal.float?_text floatLayout _ hpoint, Decimal.magnitude_shortest hfinite,
      Floats.ofMagnitude_magnitude]
    rfl

/-- A float without a point is not read at all. -/
theorem literal?_text_of_isPointless {x : Number} (h : x.IsPointless) :
    literal? x.text.toList = none := by
  cases x with
  | int n => exact h.elim
  | float x =>
    change literal? (floatText x).toList = none
    rcases le_or_gt (magnitude x) infinity with hle | hgt
    · have hpoint : '.' ∉ magnitudeText (magnitude x) :=
        fun hmem => (point_mem_magnitudeText_iff hle).mp hmem h
      obtain ⟨c, hc, hdigit, hplus, hminus⟩ := exists_letter hpoint
      rw [toList_floatText hle]
      exact literal?_eq_none (mt (Decimal.mem_signed_iff _ (by decide)).mp hpoint)
        ((Decimal.mem_signed_iff _ hminus).mpr hc) hdigit hplus hminus
    · rw [floatText_of_lt hgt]
      rfl

end Number

/-! ## Face lists -/

namespace Faces

theorem mapM_literal?_text {xs : List Number} (h : ∀ x ∈ xs, ¬x.IsPointless) :
    (xs.mapM fun x => Number.literal? x.text.toList) = some xs := by
  induction xs with
  | nil => rfl
  | cons x xs ih =>
    obtain ⟨hx, hxs⟩ := List.forall_mem_cons.mp h
    rw [List.mapM_cons, Number.literal?_text hx, ih hxs]
    rfl

theorem mapM_literal?_eq_none {xs : List Number} {x : Number} (hx : x ∈ xs) (h : x.IsPointless) :
    (xs.mapM fun x => Number.literal? x.text.toList) = none := by
  induction xs with
  | nil => cases hx
  | cons y ys ih =>
    rw [List.mapM_cons]
    rcases List.mem_cons.mp hx with rfl | hx
    · rw [Number.literal?_text_of_isPointless h]
      rfl
    · cases Number.literal? y.text.toList with
      | none => rfl
      | some z =>
        rw [ih hx]
        rfl

/-- What stands between the brackets of a face list is read as the same faces if no face is a float
without a point, and not at all if one is. -/
theorem read?_text_iff (f : Faces) (inner : List Char)
    (hinner : f.text.toList = '[' :: inner ++ [']']) :
    (read? inner = some f ↔ ∀ x ∈ f.toList, ¬x.IsPointless) ∧
      (read? inner = none ↔ ∃ x ∈ f.toList, x.IsPointless) := by
  have hlist : inner = (Number.listText f.toList).toList := by
    rw [toList_text] at hinner
    exact ((List.append_left_inj _).mp (List.cons.inj hinner).2).symm
  have hread : read? inner =
      (f.toList.mapM fun x => Number.literal? x.text.toList).bind ofList? := by
    rw [hlist, read?_listText f fun x _ c hc => Number.isSolid_of_mem_text hc]
  by_cases h : ∃ x ∈ f.toList, x.IsPointless
  · obtain ⟨x, hx, hpointless⟩ := h
    have hnone : read? inner = none := by
      rw [hread, mapM_literal?_eq_none hx hpointless]
      rfl
    rw [hnone]
    exact ⟨iff_of_false (by simp) fun hall => hall x hx hpointless,
      iff_of_true rfl ⟨x, hx, hpointless⟩⟩
  · have hall : ∀ x ∈ f.toList, ¬x.IsPointless := fun x hx hpointless => h ⟨x, hx, hpointless⟩
    have hsome : read? inner = some f := by
      rw [hread, mapM_literal?_text hall]
      exact ofList?_toList f
    rw [hsome]
    exact ⟨iff_of_true rfl hall, iff_of_false (by simp) h⟩

/-- A list with the float of `10 ^ 16` beside an integer. -/
theorem read?_text_iff_beside :
    let f : Faces := ⟨[.int 1, .float (ofMagnitude false (⟨1, 16⟩ : Decimal).magnitude)], by simp⟩
    f.text.toList = '[' :: "1, 1e16".toList ++ [']'] ∧
      (∃ x ∈ f.toList, x.IsPointless) ∧ read? "1, 1e16".toList = none := by
  intro f
  have hinner : f.text.toList = '[' :: "1, 1e16".toList ++ [']'] := by decide +kernel
  have hpointless : ∃ x ∈ f.toList, x.IsPointless :=
    ⟨_, List.mem_cons_of_mem _ List.mem_cons_self,
      .inr ⟨by decide +kernel, ⟨1, 16⟩, by decide +kernel, by decide, .inr (by decide)⟩⟩
  exact ⟨hinner, hpointless, (read?_text_iff f _ hinner).2.mpr hpointless⟩

/-- A face list can be lost by being written: its face has no point any more. -/
theorem read?_text_lost : ∃ f, read? "0.00001".toList = some f ∧
    f.text.toList = '[' :: "1e-5".toList ++ [']'] ∧ read? "1e-5".toList = none := by
  have hread : (read? "0.00001".toList).map (fun f => f.text.toList) =
      some ('[' :: "1e-5".toList ++ [']']) := by decide +kernel
  obtain ⟨f, hf, htext⟩ := Option.map_eq_some_iff.mp hread
  have hnone : (read? "1e-5".toList).isNone = true := by decide
  exact ⟨f, hf, htext, Option.isNone_iff_eq_none.mp hnone⟩

end Faces

end DiceNotation
