import DiceNotation.Sorting.Runs

/-!
# Stable sorting

The parts put together. Lists of a few elements are sorted by insertion, others by runs. The
open runs of a long list are sorted by partition around a pivot; in the unlikely case that the
partitions stay lopsided, what is left is sorted by runs that are all sorted at once.
-/

namespace DiceNotation.Sorting

variable {α : Type} (less : α → α → Bool)

/-! ## Pivots -/

/-- The median of three values, if they are ordered. -/
def medianOfThree (a b c : α) : α :=
  if less a b == less a c then if less b c == less a b then b else c else a

/-- A value near the median of `width` neighbouring values, the first of which is at `start`. It
is the median of three samples, each of which is taken alike from an eighth of them. -/
def sample (value : Nat → α) (width start : Nat) : α :=
  if width < 8 then value start
  else
    let eighth := width / 8
    medianOfThree less (sample value eighth start) (sample value eighth (start + 4 * eighth))
      (sample value eighth (start + 7 * eighth))
termination_by width

/-- The element of the list `x :: xs` around which it is partitioned. -/
def pivot (x : α) (xs : List α) : α :=
  let values := (x :: xs).toArray
  sample less (fun i => values.getD i x) values.size 0

/-! ## Partition -/

/-- Sorts by runs that are all sorted at once. -/
def sortEagerly (xs : List α) : List α :=
  sortByRuns less true ⟨sortShort less, 0, perm_sortShort less⟩ xs

/-- Sorts by partition, at most `depth` times in a row. Nothing in the list is below `bound`, so
that a pivot which is not above it is the least value: all that equals it is in its place. -/
def sortByPartition : Nat → Option α → List α → List α
  | _, _, [] => []
  | 0, _, xs => if xs.length ≤ shortLength then sortShort less xs else sortEagerly less xs
  | depth + 1, bound, x :: xs =>
    if xs.length < shortLength then sortShort less (x :: xs)
    else
      let p := pivot less x xs
      let below := (x :: xs).filter (less · p)
      if below.isEmpty || bound.any (!less · p) then
        (x :: xs).filter (!less p ·) ++
          sortByPartition depth none ((x :: xs).filter (less p ·))
      else
        sortByPartition depth bound below ++
          sortByPartition depth (some p) ((x :: xs).filter (!less · p))

theorem perm_sortByPartition (depth : Nat) (bound : Option α) (xs : List α) :
    (sortByPartition less depth bound xs).Perm xs := by
  fun_induction sortByPartition less depth bound xs with
  | case1 => exact .refl _
  | case2 => exact perm_sortShort less _
  | case3 => exact perm_sortByRuns less true _ _
  | case4 => exact perm_sortShort less _
  | case5 depth bound x xs h p below he ih =>
    exact (ih.append_left _).trans
      (List.perm_append_comm.trans (List.filter_append_perm (less p ·) (x :: xs)))
  | case6 depth bound x xs h p below he ih₁ ih₂ =>
    exact (ih₁.append ih₂).trans (List.filter_append_perm (less · p) (x :: xs))

/-! ## Sorting -/

/-- The longest list that is sorted by insertion. -/
def insertionLimit : Nat := 20

/-- How the open runs of a list of `size` elements are sorted. They grow together while there is
room for them beside the list. -/
def partitionSettling (size : Nat) : Run.Settling α where
  sort xs := sortByPartition less (2 * Nat.log2 xs.length) none xs
  limit := max (size - size / 2) (min size 500000)
  perm_sort _ := perm_sortByPartition less _ none _

/-- Sorts a list by the comparison `less`, which has to hold of no element and itself. Equal
elements keep their order. -/
def stableSort (xs : List α) : List α :=
  if xs.length ≤ insertionLimit then insertAll less [] xs
  else if xs.length ≤ 2 * shortLength then sortEagerly less xs
  else sortByRuns less false (partitionSettling less xs.length) xs

/-- Sorting neither loses nor invents elements. -/
theorem perm_stableSort (xs : List α) : (stableSort less xs).Perm xs := by
  unfold stableSort
  split
  · exact perm_insertAll less [] xs
  · split
    · exact perm_sortByRuns less true _ xs
    · exact perm_sortByRuns less false _ xs

end DiceNotation.Sorting
