import DiceNotation.Proofs.Number.Rounding
import DiceNotation.Roll.Reroll

/-!
# Escaping a reroll

A reroll that goes on until it succeeds is refused if no face of the die would ever be accepted.
For numbered sides this is decided by the least and the greatest side alone, as comparison with
the target is monotone in the face. A target that is not a number is the exception: no face stands
to it as asked, and the two sides say nothing of it.

* `Number.exists_places`: comparing integers with a number is comparing integers.
* `Die.canEscape_sides_iff`: for which targets the two sides decide as all faces do.
-/

namespace DiceNotation

/-- The faces of a die with numbered sides, from the least to the greatest. -/
def Sides.faces (s : Sides) : Faces where
  toList := (List.range' 1 s.count).map fun k => .int (Int64.ofNat k)
  nonempty := by
    have hpos := s.count_pos
    rw [ne_eq, List.map_eq_nil_iff, List.range'_eq_nil_iff]
    omega

namespace Number

/-- Whether the number is NaN. -/
def isNaN : Number → Bool
  | .int _ => false
  | .float x => x.isNaN

variable {a b : Number} {x y : Int}

theorem lt_iff_of_compare? (h : a.compare? b = some (compare x y)) : a.lt b = true ↔ x < y := by
  rw [lt, h, beq_iff_eq, Option.some.injEq, Int.compare_eq_lt]

theorem beq_iff_of_compare? (h : a.compare? b = some (compare x y)) : (a == b) = true ↔ x = y := by
  change (a.compare? b == some .eq) = true ↔ x = y
  rw [h, beq_iff_eq, Option.some.injEq, Int.compare_eq_eq]

theorem le_iff_of_compare? (h : a.compare? b = some (compare x y)) : a.le b = true ↔ x ≤ y := by
  rw [le, Bool.or_eq_true, lt_iff_of_compare? h]
  have heq : (a.compare? b == some .eq) = true ↔ x = y := beq_iff_of_compare? h
  rw [heq]
  omega

/-- Places for the integers and for a number that they are compared with. The order of integers
survives, and one and two stay apart. -/
structure Places (b : Number) (place : Int64 → Int) (c : Int) : Prop where
  mono {m n : Int64} : m.toInt ≤ n.toInt → place m ≤ place n
  one_lt_two : place 1 < place 2
  compare_left (n : Int64) : compare? (.int n) b = some (compare (place n) c)
  compare_right (n : Int64) : compare? b (.int n) = some (compare c (place n))

/-- Whatever is compared with integers is NaN or has a place among them. -/
theorem exists_places (h : b.isNaN = false) : ∃ place c, b.Places place c := by
  cases b with
  | int k => exact ⟨Int64.toInt, k.toInt, fun h => h, by decide, fun _ => rfl, fun _ => rfl⟩
  | float x =>
    exact ⟨fun n => Floats.ordinal (floatOfInt n), Floats.ordinal x,
      Floats.ordinal_floatOfInt_mono,
      Floats.ordinal_floatOfInt_lt (by decide) (by decide) (by decide),
      fun n => Floats.compareFloats?_eq (Floats.isNaN_floatOfInt n) h,
      fun n => Floats.compareFloats?_eq h (Floats.isNaN_floatOfInt n)⟩

theorem compare?_of_isNaN (hb : b.isNaN = true) : a.compare? b = none ∧ b.compare? a = none := by
  cases b with
  | int n => cases hb
  | float x =>
    constructor
    · cases a <;> exact Floats.compareFloats?_of_isNaN (.inr hb)
    · cases a <;> exact Floats.compareFloats?_of_isNaN (.inl hb)

end Number

/-- Nothing stands to NaN in any relation. -/
theorem Relation.holds_of_isNaN {target : Number} (h : target.isNaN = true) (relation : Relation)
    (x : Number) : relation.holds x target = false := by
  obtain ⟨hleft, hright⟩ := Number.compare?_of_isNaN (a := x) h
  cases relation with
  | equal =>
    change (x.compare? target == some .eq) = false
    rw [hleft]
    rfl
  | lower =>
    rw [holds, Number.lt, hleft]
    rfl
  | higher =>
    rw [holds, Number.lt, hright]
    rfl

namespace Die

variable {s : Sides} {relation : Relation} {target : Number}

theorem canEscape_faces_iff :
    (Die.faces s.faces).canEscape relation target = true ↔
      ∃ k, 1 ≤ k ∧ k ≤ s.count ∧ relation.holds (.int (Int64.ofNat k)) target = false := by
  simp only [canEscape, Sides.faces, List.any_map, List.any_eq_true, List.mem_range'_1,
    Function.comp_apply, Bool.not_eq_true', Nat.lt_one_add_iff, and_assoc]

theorem toInt_face {k : Nat} (h : k ≤ s.count) : (Int64.ofNat k).toInt = k := by
  have hlt : s.count < 4294967296 := s.count_lt
  exact Int64.toInt_ofNat_of_lt (by omega)

section Places

variable {place : Int64 → Int} {c : Int}

theorem canEscape_equal (h : target.Places place c) :
    (Die.sides s).canEscape .equal target = true ↔
      (Die.faces s.faces).canEscape .equal target = true := by
  have heq (k : Nat) : Relation.equal.holds (.int (Int64.ofNat k)) target = false ↔
      place (Int64.ofNat k) ≠ c := by
    rw [← Bool.not_eq_true]
    exact not_congr (Number.beq_iff_of_compare? (h.compare_left _))
  have hone : (target == Number.one) = true ↔ c = place 1 :=
    Number.beq_iff_of_compare? (h.compare_right 1)
  rw [canEscape_faces_iff]
  simp only [canEscape, Bool.or_eq_true, decide_eq_true_eq, Bool.not_eq_true', ← Bool.not_eq_true,
    hone, heq]
  constructor
  · intro hescape
    by_cases hc : place 1 = c
    · refine ⟨2, by omega, by omega, fun htwo => ?_⟩
      exact Int.ne_of_lt h.one_lt_two (hc.trans htwo.symm)
    · exact ⟨1, Nat.le_refl _, s.count_pos, hc⟩
  · rintro ⟨k, hk, hle, hne⟩
    by_cases hcount : 1 < s.count
    · exact .inl hcount
    · obtain rfl : k = 1 := by omega
      exact .inr fun hc => hne hc.symm

theorem canEscape_lower (h : target.Places place c) :
    (Die.sides s).canEscape .lower target = true ↔
      (Die.faces s.faces).canEscape .lower target = true := by
  have hlt (k : Nat) : Relation.lower.holds (.int (Int64.ofNat k)) target = false ↔
      c ≤ place (Int64.ofNat k) := by
    rw [← Bool.not_eq_true, ← Int.not_lt]
    exact not_congr (Number.lt_iff_of_compare? (h.compare_left _))
  have hgreatest : target.le s.toNumber = true ↔ c ≤ place (Int64.ofNat s.count) :=
    Number.le_iff_of_compare? (h.compare_right _)
  rw [canEscape_faces_iff]
  simp only [canEscape, hgreatest, hlt]
  constructor
  · exact fun hc => ⟨s.count, s.count_pos, Nat.le_refl _, hc⟩
  · rintro ⟨k, hk, hle, hc⟩
    refine Int.le_trans hc (h.mono ?_)
    rw [toInt_face hle, toInt_face (Nat.le_refl _)]
    omega

theorem canEscape_higher (h : target.Places place c) :
    (Die.sides s).canEscape .higher target = true ↔
      (Die.faces s.faces).canEscape .higher target = true := by
  have hlt (k : Nat) : Relation.higher.holds (.int (Int64.ofNat k)) target = false ↔
      place (Int64.ofNat k) ≤ c := by
    rw [← Bool.not_eq_true, ← Int.not_lt]
    exact not_congr (Number.lt_iff_of_compare? (h.compare_right _))
  have hleast : Number.one.le target = true ↔ place 1 ≤ c :=
    Number.le_iff_of_compare? (h.compare_left 1)
  rw [canEscape_faces_iff]
  simp only [canEscape, hleast, hlt]
  constructor
  · exact fun hc => ⟨1, Nat.le_refl _, s.count_pos, hc⟩
  · rintro ⟨k, hk, hle, hc⟩
    refine Int.le_trans (h.mono ?_) hc
    rw [toInt_face hle]
    change (1 : Int) ≤ k
    omega

end Places

/-- The two sides decide for all others, as the place of a face grows with the face. -/
theorem canEscape_sides_of_ordered (h : target.isNaN = false) :
    (Die.sides s).canEscape relation target = true ↔
      (Die.faces s.faces).canEscape relation target = true := by
  obtain ⟨place, c, hplaces⟩ := Number.exists_places h
  cases relation with
  | equal => exact canEscape_equal hplaces
  | lower => exact canEscape_lower hplaces
  | higher => exact canEscape_higher hplaces

theorem canEscape_faces_of_isNaN (h : target.isNaN = true) :
    (Die.faces s.faces).canEscape relation target = true :=
  canEscape_faces_iff.mpr ⟨1, Nat.le_refl _, s.count_pos, Relation.holds_of_isNaN h _ _⟩

/-- Beside NaN, the two sides see a way out only for rerolls of equal values. -/
theorem canEscape_sides_of_isNaN (h : target.isNaN = true) :
    (Die.sides s).canEscape relation target = true ↔ relation = .equal := by
  obtain ⟨hleft, hright⟩ := Number.compare?_of_isNaN (a := .one) h
  cases relation with
  | equal =>
    have heq : (target == Number.one) = false := by
      change (target.compare? .one == some .eq) = false
      rw [hright]
      rfl
    simp only [canEscape, heq, Bool.not_false, Bool.or_true]
  | lower =>
    simp only [canEscape, Number.le, Number.lt, (Number.compare?_of_isNaN h).2]
    decide
  | higher =>
    simp only [canEscape, Number.le, Number.lt, hleft]
    decide

/-- A way out is a face that does not stand to the target as asked. The two sides never see one
where there is none, and they overlook one if and only if lesser or greater values than NaN are to
be rerolled. -/
theorem canEscape_sides_iff (s : Sides) (relation : Relation) (target : Number) :
    ((Die.faces s.faces).canEscape relation target = true ↔
        ∃ k, 1 ≤ k ∧ k ≤ s.count ∧ relation.holds (.int (Int64.ofNat k)) target = false) ∧
      ((Die.sides s).canEscape relation target = true ↔
        (Die.faces s.faces).canEscape relation target = true ∧
          (relation = .equal ∨ target.isNaN = false)) := by
  refine ⟨canEscape_faces_iff, ?_⟩
  cases h : target.isNaN with
  | false => rw [canEscape_sides_of_ordered h, and_iff_left (.inr rfl)]
  | true =>
    rw [canEscape_sides_of_isNaN h, canEscape_faces_of_isNaN h]
    simp only [Bool.true_eq_false, or_false, true_and]

/-- Lesser values than NaN are to be rerolled with a die of six sides: it shows none. -/
theorem canEscape_overlooked :
    let target : Number := .float (0 / 0)
    let s : Sides := ⟨6, by decide, by decide⟩
    (Die.sides s).canEscape .lower target = false ∧
      ∀ k, 1 ≤ k → k ≤ 6 → Relation.lower.holds (.int (Int64.ofNat k)) target = false := by
  intro target s
  have hnan : target.isNaN = true := by decide
  refine ⟨?_, fun k _ _ => Relation.holds_of_isNaN hnan _ _⟩
  rw [← Bool.not_eq_true, canEscape_sides_of_isNaN hnan]
  nofun

end Die

end DiceNotation
