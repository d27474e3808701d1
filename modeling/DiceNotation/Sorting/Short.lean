import DiceNotation.Sorting.Merging

/-!
# Sorting short lists

Up to a few dozen elements are sorted in two halves. Each half begins with four or eight
elements that are brought into order by a fixed network of comparisons; its other elements are
inserted, and the halves are merged from both ends.
-/

namespace DiceNotation.Sorting

variable {α : Type} (less : α → α → Bool)

/-- The greatest length of a list that counts as short. -/
def shortLength : Nat := 32

/-! ## Networks -/

def sortTwo (a b : α) : List α := if less b a then [b, a] else [a, b]

/-- Two pairs, each in ascending order, as one list: the lowest and the highest are found
first, then the two between them are compared. -/
def joinPairs (low₁ high₁ low₂ high₂ : α) : List α :=
  match less low₂ low₁, less high₂ high₁ with
  | true, true => low₂ :: sortTwo less low₁ high₂ ++ [high₁]
  | true, false => low₂ :: sortTwo less low₁ high₁ ++ [high₂]
  | false, true => low₁ :: sortTwo less low₂ high₂ ++ [high₁]
  | false, false => low₁ :: sortTwo less high₁ low₂ ++ [high₂]

def sortFour (a b c d : α) : List α :=
  match less b a, less d c with
  | true, true => joinPairs less b a d c
  | true, false => joinPairs less b a c d
  | false, true => joinPairs less a b d c
  | false, false => joinPairs less a b c d

/-- Sorts four or eight elements and leaves any other list as it is. -/
def sortByNetwork : List α → List α
  | [a, b, c, d] => sortFour less a b c d
  | [a, b, c, d, e, f, g, h] =>
    mergeUp less 4 (sortFour less a b c d) (sortFour less e f g h)
  | xs => xs

theorem perm_sortTwo (a b : α) : (sortTwo less a b).Perm [a, b] := by
  unfold sortTwo
  split
  · exact .swap a b []
  · exact .refl _

theorem perm_joinPairs (a b c d : α) : (joinPairs less a b c d).Perm [a, b, c, d] := by
  classical
  unfold joinPairs
  split <;>
    refine (((perm_sortTwo less _ _).cons _).append_right _).trans (List.perm_iff_count.2 ?_) <;>
    intro x <;> simp only [List.cons_append, List.nil_append, List.count_cons,
      List.count_nil] <;> omega

theorem perm_sortFour (a b c d : α) : (sortFour less a b c d).Perm [a, b, c, d] := by
  unfold sortFour
  split
  · exact (perm_joinPairs less b a d c).trans ((List.Perm.swap a b _).trans
      (((List.Perm.swap c d []).cons b).cons a))
  · exact (perm_joinPairs less b a c d).trans (.swap a b _)
  · exact (perm_joinPairs less a b d c).trans (((List.Perm.swap c d []).cons b).cons a)
  · exact perm_joinPairs less a b c d

theorem perm_sortByNetwork (xs : List α) : (sortByNetwork less xs).Perm xs := by
  unfold sortByNetwork
  split
  · exact perm_sortFour less _ _ _ _
  · exact (perm_mergeUp less 4 _ _).trans
      ((perm_sortFour less _ _ _ _).append (perm_sortFour less _ _ _ _))
  · exact .refl _

/-! ## Halves -/

/-- How many elements of each half a network brings into order, for a list of a given length. -/
def networkSize (length : Nat) : Nat :=
  if 16 ≤ length then 8 else if 8 ≤ length then 4 else 1

/-- Sorts a list, the first `size` elements by a network and the others by insertion. -/
def sortHalf (size : Nat) (xs : List α) : List α :=
  insertAll less (sortByNetwork less (xs.take size)) (xs.drop size)

/-- Sorts a short list. -/
def sortShort (xs : List α) : List α :=
  let middle := xs.length / 2
  let size := networkSize xs.length
  mergeUp less middle (sortHalf less size (xs.take middle)) (sortHalf less size (xs.drop middle))

theorem perm_sortHalf (size : Nat) (xs : List α) : (sortHalf less size xs).Perm xs :=
  (perm_insertAll less _ _).trans <|
    ((perm_sortByNetwork less _).append_right _).trans (by simp)

theorem perm_sortShort (xs : List α) : (sortShort less xs).Perm xs :=
  (perm_mergeUp less _ _ _).trans <|
    ((perm_sortHalf less _ _).append (perm_sortHalf less _ _)).trans (by simp)

end DiceNotation.Sorting
