/-!
# Insertion and merging

Lists are sorted by a comparison `less`, of which nothing is assumed. Where it is a strict weak
order, everything here is stable and gives the one sorted list; where it is not, the result
depends on which elements are compared, and therefore on the end from which a merge is made.
-/

namespace DiceNotation.Sorting

variable {α : Type} (less : α → α → Bool)

/-! ## Insertion -/

/-- Inserts into a descending list, before the first element that is not above. -/
def insertDescending (x : α) : List α → List α
  | [] => [x]
  | y :: ys => if less x y then y :: insertDescending x ys else x :: y :: ys

/-- Inserts elements one after the other into an ascending list, each from the high end. -/
def insertAll (sorted xs : List α) : List α :=
  (xs.foldl (fun descending x => insertDescending less x descending) sorted.reverse).reverse

theorem perm_insertDescending (x : α) (xs : List α) :
    (insertDescending less x xs).Perm (x :: xs) := by
  induction xs with
  | nil => exact .refl _
  | cons y ys ih =>
    unfold insertDescending
    split
    · exact (ih.cons y).trans (.swap x y ys)
    · exact .refl _

theorem perm_foldl_insertDescending (xs descending : List α) :
    (xs.foldl (fun descending x => insertDescending less x descending) descending).Perm
      (xs ++ descending) := by
  induction xs generalizing descending with
  | nil => exact .refl _
  | cons x xs ih =>
    exact (ih _).trans (((perm_insertDescending less x descending).append_left xs).trans
      List.perm_middle)

theorem perm_insertAll (sorted xs : List α) :
    (insertAll less sorted xs).Perm (sorted ++ xs) :=
  (List.reverse_perm _).trans <| (perm_foldl_insertDescending less xs sorted.reverse).trans <|
    ((List.reverse_perm sorted).append_left xs).trans List.perm_append_comm

/-! ## Merging -/

/-- Merges two ascending lists from the high end; of equal elements the right one is higher. -/
def mergeDown (left right : List α) : List α :=
  (right.reverse.merge left.reverse fun y x => !less y x).reverse

/-- Merges two ascending lists: the lowest `count` elements are found from the low end, the
others from the high end. -/
def mergeUp : Nat → List α → List α → List α
  | 0, left, right => mergeDown less left right
  | _ + 1, [], right => right
  | _ + 1, left, [] => left
  | count + 1, x :: left, y :: right =>
    if less y x then y :: mergeUp count (x :: left) right
    else x :: mergeUp count left (y :: right)

/-- Merges two ascending lists, from the end at which the shorter one lies. -/
def merge (left right : List α) : List α :=
  if left.length ≤ right.length then mergeUp less (left.length + right.length) left right
  else mergeDown less left right

theorem perm_mergeDown (left right : List α) :
    (mergeDown less left right).Perm (left ++ right) :=
  (List.reverse_perm _).trans <| (List.merge_perm_append _).trans <|
    ((List.reverse_perm right).append (List.reverse_perm left)).trans List.perm_append_comm

theorem perm_mergeUp (count : Nat) (left right : List α) :
    (mergeUp less count left right).Perm (left ++ right) := by
  fun_induction mergeUp less count left right with
  | case1 left right => exact perm_mergeDown less left right
  | case2 => exact .refl _
  | case3 => simp
  | case4 count x left y right h ih => exact (ih.cons y).trans List.perm_middle.symm
  | case5 count x left y right h ih => exact ih.cons x

theorem perm_merge (left right : List α) : (merge less left right).Perm (left ++ right) := by
  unfold merge
  split
  · exact perm_mergeUp less _ left right
  · exact perm_mergeDown less left right

end DiceNotation.Sorting
