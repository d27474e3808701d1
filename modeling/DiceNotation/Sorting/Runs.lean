import DiceNotation.Sorting.Short

/-!
# Sorting by runs

A list is cut into runs: stretches that already rise or fall, and between them stretches of a
fixed length. Neighbouring runs are joined in the order of a nearly balanced tree over the whole
list. A stretch without an order of its own is either sorted at once or stays open, and open
runs grow together until one of them has to be merged with a sorted run.
-/

namespace DiceNotation.Sorting

variable {α : Type} (less : α → α → Bool)

/-- A stretch of a list; an open run is one that is not yet sorted. -/
structure Run (α : Type) where
  elements : List α
  isSorted : Bool

namespace Run

def length (run : Run α) : Nat := run.elements.length

/-! ## Cutting -/

/-- The elements after `x` that go on falling strictly, or go on not falling, and the rest. -/
def splitSteady (falling : Bool) : α → List α → List α × List α
  | _, [] => ([], [])
  | x, y :: ys =>
    if less y x == falling then
      let (steady, rest) := splitSteady falling y ys
      (y :: steady, rest)
    else ([], y :: ys)

/-- The steady stretch at the beginning of a list, in rising order, and what follows it. -/
def steady (x : α) (xs : List α) : List α × List α :=
  let falling := xs.head?.any (less · x)
  let (stretch, rest) := splitSteady less falling x xs
  (if falling then (x :: stretch).reverse else x :: stretch, rest)

/-- The first run of a list and what follows it: a steady stretch if it has the length `goal`. -/
def first (eager : Bool) (goal : Nat) (x : α) (xs : List α) : Run α × List α :=
  let (stretch, rest) := steady less x xs
  if goal ≤ stretch.length then (⟨stretch, true⟩, rest)
  else if eager then
    (⟨sortShort less (x :: xs.take (shortLength - 1)), true⟩, xs.drop (shortLength - 1))
  else (⟨x :: xs.take (goal - 1), false⟩, xs.drop (goal - 1))

theorem splitSteady_append (falling : Bool) (x : α) (xs : List α) :
    (splitSteady less falling x xs).1 ++ (splitSteady less falling x xs).2 = xs := by
  fun_induction splitSteady less falling x xs with
  | case1 => rfl
  | case2 x y ys h steady rest hs ih => simp_all
  | case3 => rfl

theorem perm_steady (x : α) (xs : List α) :
    ((steady less x xs).1 ++ (steady less x xs).2).Perm (x :: xs) := by
  have hs := congrArg (x :: ·) (splitSteady_append less (xs.head?.any (less · x)) x xs)
  unfold steady
  simp only
  split
  · exact ((List.reverse_perm _).append_right _).trans (.of_eq hs)
  · exact .of_eq hs

theorem length_steady_rest_le (x : α) (xs : List α) :
    (steady less x xs).2.length ≤ xs.length := by
  have hs := congrArg List.length (splitSteady_append less (xs.head?.any (less · x)) x xs)
  rw [List.length_append, Nat.add_comm] at hs
  exact Nat.le.intro hs

theorem perm_first (eager : Bool) (goal : Nat) (x : α) (xs : List α) :
    ((first less eager goal x xs).1.elements ++ (first less eager goal x xs).2).Perm
      (x :: xs) := by
  unfold first
  split
  next stretch rest hs =>
    split
    · simpa only [hs] using perm_steady less x xs
    · split
      · exact ((perm_sortShort less _).append_right _).trans (by simp)
      · simp

theorem length_first_rest_le (eager : Bool) (goal : Nat) (x : α) (xs : List α) :
    (first less eager goal x xs).2.length ≤ xs.length := by
  unfold first
  split
  next stretch rest hs =>
    split
    · simpa only [hs] using length_steady_rest_le less x xs
    · split <;> simp

/-- The runs of a list, in their order. -/
def cut (eager : Bool) (goal : Nat) : List α → List (Run α)
  | [] => []
  | x :: xs =>
    (first less eager goal x xs).1 :: cut eager goal (first less eager goal x xs).2
termination_by xs => xs.length
decreasing_by exact Nat.lt_succ_of_le (length_first_rest_le less eager goal x xs)

theorem perm_cut (eager : Bool) (goal : Nat) (xs : List α) :
    ((cut less eager goal xs).flatMap elements).Perm xs := by
  fun_induction cut less eager goal xs with
  | case1 => exact .refl _
  | case2 x xs ih =>
    exact (ih.append_left _).trans (perm_first less eager goal x xs)

/-! ## Joining -/

/-- How an open run is sorted, and beyond which length two open runs no longer grow together. -/
structure Settling (α : Type) where
  sort : List α → List α
  limit : Nat
  perm_sort : ∀ xs, (sort xs).Perm xs

variable (settling : Settling α)

/-- The elements of a run in ascending order. -/
def settled (run : Run α) : List α :=
  if run.isSorted then run.elements else settling.sort run.elements

/-- Two neighbouring runs as one. -/
def join (left right : Run α) : Run α :=
  if left.isSorted || right.isSorted || settling.limit < left.length + right.length then
    ⟨merge less (left.settled settling) (right.settled settling), true⟩
  else ⟨left.elements ++ right.elements, false⟩

theorem perm_settled (run : Run α) : (run.settled settling).Perm run.elements := by
  unfold settled
  split
  · exact .refl _
  · exact settling.perm_sort _

theorem perm_join (left right : Run α) :
    (join less settling left right).elements.Perm (left.elements ++ right.elements) := by
  unfold join
  split
  · exact (perm_merge less _ _).trans
      ((perm_settled settling left).append (perm_settled settling right))
  · exact .refl _

/-! ## The tree of runs -/

/-- The number of leaves of the tree that is laid over every list. -/
def treeSize : Nat := Nat.pow 2 62

/-- How high in the tree two neighbouring runs meet. The middles of both runs are carried over
to the leaves, and the highest binary digit in which they differ is that of the node. -/
def meetingHeight (size start middle stop : Nat) : Nat :=
  let scale := (treeSize + size - 1) / size
  Nat.log2 (Nat.xor (scale * (start + middle)) (scale * (middle + stop)))

/-- Runs that wait for their right neighbour, the nearest first, with the height at which they
meet it. -/
abbrev Pending (α : Type) := List (Run α × Nat)

/-- Joins a run with the runs before it that meet their neighbour at the given height or below. -/
def joinUpTo (height : Nat) : Pending α → Run α → Pending α × Run α
  | [], last => ([], last)
  | (left, meeting) :: pending, last =>
    if meeting ≤ height then joinUpTo height pending (join less settling left last)
    else ((left, meeting) :: pending, last)

/-- Joins all runs of a list of `size` elements; `last` begins at the place `start`. -/
def joinAll (size : Nat) : Pending α → Run α → Nat → List (Run α) → Run α
  | pending, last, _, [] =>
    pending.foldl (fun last left => join less settling left.1 last) last
  | pending, last, start, next :: runs =>
    let middle := start + last.length
    let height := meetingHeight size start middle (middle + next.length)
    let (pending, joined) := joinUpTo less settling height pending last
    joinAll size ((joined, height) :: pending) next middle runs

theorem perm_joinUpTo (height : Nat) (pending : Pending α) (last : Run α) :
    ((joinUpTo less settling height pending last).2.elements ++
      (joinUpTo less settling height pending last).1.flatMap (·.1.elements)).Perm
        (last.elements ++ pending.flatMap (·.1.elements)) := by
  fun_induction joinUpTo less settling height pending last with
  | case1 => exact .refl _
  | case2 left meeting pending last h ih =>
    refine ih.trans (((perm_join less settling left last).append_right _).trans ?_)
    simpa only [List.flatMap_cons, List.append_assoc] using
      (List.perm_append_comm_assoc left.elements last.elements _)
  | case3 => exact .refl _

theorem perm_foldl_join (pending : Pending α) (last : Run α) :
    (pending.foldl (fun last left => join less settling left.1 last) last).elements.Perm
      (last.elements ++ pending.flatMap (·.1.elements)) := by
  induction pending generalizing last with
  | nil => simp
  | cons left pending ih =>
    refine (ih _).trans (((perm_join less settling left.1 last).append_right _).trans ?_)
    simpa only [List.flatMap_cons, List.append_assoc] using
      (List.perm_append_comm_assoc left.1.elements last.elements _)

theorem perm_joinAll (size : Nat) (pending : Pending α) (last : Run α) (start : Nat)
    (runs : List (Run α)) :
    (joinAll less settling size pending last start runs).elements.Perm
      (last.elements ++ (pending.flatMap (·.1.elements) ++ runs.flatMap elements)) := by
  induction runs generalizing pending last start with
  | nil => simpa [joinAll] using perm_foldl_join less settling pending last
  | cons next runs ih =>
    refine (ih _ _ _).trans ?_
    have h := perm_joinUpTo less settling
      (meetingHeight size start (start + last.length) (start + last.length + next.length))
      pending last
    simp only [List.flatMap_cons]
    refine (List.perm_append_comm_assoc _ _ _).trans ?_
    simpa only [List.append_assoc] using h.append_right (next.elements ++ runs.flatMap elements)

end Run

/-- The length that a steady stretch needs to be a run of its own: in longer lists about the
square root of their length. -/
def runGoal (size : Nat) : Nat :=
  if size ≤ 4096 then min (size - size / 2) 64
  else
    let shift := (1 + Nat.log2 size) / 2
    (Nat.pow 2 shift + size / Nat.pow 2 shift) / 2

/-- Sorts by runs. An eager sort leaves no run open. -/
def sortByRuns (eager : Bool) (settling : Run.Settling α) (xs : List α) : List α :=
  match Run.cut less eager (runGoal xs.length) xs with
  | [] => []
  | run :: runs => (Run.joinAll less settling xs.length [] run 0 runs).settled settling

theorem perm_sortByRuns (eager : Bool) (settling : Run.Settling α) (xs : List α) :
    (sortByRuns less eager settling xs).Perm xs := by
  have h := Run.perm_cut less eager (runGoal xs.length) xs
  unfold sortByRuns
  split
  · next hc => simpa [hc] using h
  · next run runs hc =>
    rw [hc] at h
    exact (Run.perm_settled settling _).trans
      ((Run.perm_joinAll less settling xs.length [] run 0 runs).trans (by simpa using h))

end DiceNotation.Sorting
