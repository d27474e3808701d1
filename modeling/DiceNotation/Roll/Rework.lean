import DiceNotation.RollError

/-!
# Reworking a roll

Keeping the highest or lowest values, clamping, counting successes, and touching single values.
Whatever is removed or replaced goes to the discards. Keeping goes by position and is right on
a roll in ascending order; clamping and counting restore that order.
-/

namespace DiceNotation

/-- Whether a value stands to the target as asked. -/
def Relation.holds (relation : Relation) (x target : Number) : Bool :=
  match relation with
  | .equal => x == target
  | .lower => x.lt target
  | .higher => target.lt x

namespace Roll

/-- Keeps the `n` highest values, or all if there are not more. -/
def keepHigh (r : Roll) (n : Nat) : Roll :=
  let dropped := r.length - n
  { r with rolls := r.rolls.drop dropped, discards := r.discards ++ r.rolls.take dropped }

/-- Keeps the `n` lowest values, or all if there are not more. -/
def keepLow (r : Roll) (n : Nat) : Roll :=
  { r with rolls := r.rolls.take n, discards := r.discards ++ r.rolls.drop n }

/-- Replaces the values that stand to the bound as asked by the bound. -/
def clamp (r : Roll) (relation : Relation) (bound : Number) : Roll :=
  let outside (x : Number) : Bool := relation.holds x bound
  Roll.sorted
    { r with
      rolls := r.rolls.map fun x => if outside x then bound else x
      discards := r.discards ++ r.rolls.filter outside }

/-- Raises every value below the bound up to it. -/
def floor (r : Roll) (bound : Number) : Roll := r.clamp .lower bound

/-- Lowers every value above the bound down to it. -/
def ceiling (r : Roll) (bound : Number) : Roll := r.clamp .higher bound

/-- Counts a value as 1 if it is a success and as 0 if not. -/
def count (r : Roll) (success : Number → Bool) : Roll :=
  Roll.sorted
    { r with
      rolls := r.rolls.map fun x => Number.ofBool (success x)
      discards := r.discards ++ r.rolls }

def countAtLeast (r : Roll) (target : Number) : Roll := r.count fun x => target.le x

def countAtMost (r : Roll) (target : Number) : Roll := r.count fun x => x.le target

/-- Moves the value at an index to the discards. -/
def discard (r : Roll) (i : Nat) : Except RollError (Number × Roll) :=
  match r.rolls[i]? with
  | none => .error (.nothingToDiscard i r.length)
  | some old =>
    .ok (old, { r with rolls := r.rolls.eraseIdx i, discards := r.discards ++ [old] })

/-- Overwrites the value at an index and discards the old one. -/
def replace (r : Roll) (i : Nat) (x : Number) : Except RollError (Number × Roll) :=
  match r.rolls[i]? with
  | none => .error (.nothingToReplace i r.length)
  | some old =>
    .ok (old, { r with rolls := r.rolls.set i x, discards := r.discards ++ [old] })

/-! ## No value disappears -/

theorem perm_keepHigh (r : Roll) (n : Nat) :
    ((r.keepHigh n).rolls ++ (r.keepHigh n).discards).Perm (r.rolls ++ r.discards) := by
  have h := List.take_append_drop (r.length - n) r.rolls
  simp only [keepHigh]
  calc
    _ = r.rolls.drop (r.length - n) ++ r.discards ++ r.rolls.take (r.length - n) := by simp
    List.Perm _ (r.rolls.take (r.length - n) ++ (r.rolls.drop (r.length - n) ++ r.discards)) :=
      List.perm_append_comm
    _ = r.rolls ++ r.discards := by rw [← List.append_assoc, h]

theorem perm_keepLow (r : Roll) (n : Nat) :
    ((r.keepLow n).rolls ++ (r.keepLow n).discards).Perm (r.rolls ++ r.discards) := by
  have h := List.take_append_drop n r.rolls
  simp only [keepLow]
  calc
    List.Perm _ (r.rolls.take n ++ (r.rolls.drop n ++ r.discards)) :=
      List.Perm.append_left _ List.perm_append_comm
    _ = r.rolls ++ r.discards := by rw [← List.append_assoc, h]

end Roll

end DiceNotation
