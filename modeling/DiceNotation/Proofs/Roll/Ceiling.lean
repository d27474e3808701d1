import DiceNotation.Proofs.Number.Totals
import DiceNotation.Roll.Rework

/-!
# Rolls below a constant roll

A roll of integers is compared with a roll of as many equal ones, each of them at least as great
as any of the first roll. Keeping, clamping and counting successes do the same to the number of
values on both sides, and what they do to a value is monotone, so the comparison outlasts any
chain of them, and the totals compare like the rolls.

* `Roll.Below.keepHigh` to `Roll.Below.countAtLeast`: what reworking keeps.
* `Roll.Below.sum`: the totals of two such rolls.
-/

namespace DiceNotation

namespace Number

theorem le_int {m n : Int64} : le (.int m) (.int n) = true ↔ m.toInt ≤ n.toInt := by
  rw [le, Bool.or_eq_true, lt_int]
  have hbeq : ((Number.int m).compare? (.int n) == some .eq) = true ↔ m = n := beq_int
  rw [hbeq, ← Int64.toInt_inj]
  omega

end Number

namespace Roll

/-- Whether the second roll has as many values as the first one, all equal to an integer that no
value of the first one exceeds. -/
def Below (r top : Roll) : Prop :=
  ∃ m : Int64, top.rolls = List.replicate r.length (.int m) ∧ ∀ x ∈ r.rolls, x.IsIntUpTo m

variable {r top : Roll}

theorem below_of {values : List Number} {m : Int64} (h : ∀ x ∈ values, x.IsIntUpTo m)
    (die die' : Die) :
    (of values die).Below (of (List.replicate values.length (.int m)) die') := by
  refine ⟨m, ?_, fun x hx => h x (Number.mem_sort.mp hx)⟩
  rw [length_of]
  exact Number.sort_replicate _ _

theorem Below.sum (h : r.Below top) : r.sum.Below top.sum := by
  obtain ⟨m, htop, hr⟩ := h
  rw [Roll.sum, Roll.sum, htop]
  exact Number.below_sum_replicate fun x hx => (hr x hx).below

/-! ## Keeping -/

theorem Below.length_eq (h : r.Below top) : top.length = r.length := by
  obtain ⟨m, htop, -⟩ := h
  rw [length, htop, List.length_replicate]

theorem Below.keepHigh (h : r.Below top) (n : Nat) : (r.keepHigh n).Below (top.keepHigh n) := by
  have hlength := h.length_eq
  obtain ⟨m, htop, hr⟩ := h
  have hkept : (r.keepHigh n).length = r.length - (r.length - n) := List.length_drop
  refine ⟨m, ?_, fun x hx => hr x (List.mem_of_mem_drop hx)⟩
  rw [hkept, Roll.keepHigh, hlength, htop]
  exact List.drop_replicate

theorem Below.keepLow (h : r.Below top) (n : Nat) : (r.keepLow n).Below (top.keepLow n) := by
  obtain ⟨m, htop, hr⟩ := h
  have hkept : (r.keepLow n).length = min n r.length := List.length_take
  refine ⟨m, ?_, fun x hx => hr x (List.mem_of_mem_take hx)⟩
  rw [hkept, Roll.keepLow, htop]
  exact List.take_replicate

/-! ## Changing every value -/

/-- Replacing every value by what a monotone function makes of it. -/
theorem Below.map (h : r.Below top) (f : Number → Number) (g : Int64 → Int64)
    (hf : ∀ n, f (.int n) = .int (g n))
    (hg : ∀ {m n}, m.toInt ≤ n.toInt → (g m).toInt ≤ (g n).toInt) {r' top' : Roll}
    (hr' : r'.rolls = Number.sort (r.rolls.map f))
    (htop' : top'.rolls = Number.sort (top.rolls.map f)) : r'.Below top' := by
  obtain ⟨m, htop, hr⟩ := h
  have hlength : r'.length = r.length := by
    rw [length, hr', Number.length_sort, List.length_map, length]
  refine ⟨g m, ?_, fun x hx => ?_⟩
  · rw [htop', htop, List.map_replicate, hf, Number.sort_replicate, hlength]
  · rw [hr', Number.mem_sort] at hx
    obtain ⟨y, hy, rfl⟩ := List.mem_map.mp hx
    obtain ⟨n, rfl, hn⟩ := hr y hy
    exact ⟨g n, hf n, hg hn⟩

theorem Below.floor (h : r.Below top) (b : Int64) :
    (r.floor (.int b)).Below (top.floor (.int b)) := by
  refine h.map (fun x => if Relation.lower.holds x (.int b) then .int b else x)
    (fun n => if n.toInt < b.toInt then b else n) (fun n => ?_) (fun {m n} hmn => ?_) rfl rfl
  · simp only [Relation.holds, Number.lt_int]
    split <;> rfl
  · split <;> split <;> omega

theorem Below.ceiling (h : r.Below top) (b : Int64) :
    (r.ceiling (.int b)).Below (top.ceiling (.int b)) := by
  refine h.map (fun x => if Relation.higher.holds x (.int b) then .int b else x)
    (fun n => if b.toInt < n.toInt then b else n) (fun n => ?_) (fun {m n} hmn => ?_) rfl rfl
  · simp only [Relation.holds, Number.lt_int]
    split <;> rfl
  · split <;> split <;> omega

theorem Below.countAtLeast (h : r.Below top) (b : Int64) :
    (r.countAtLeast (.int b)).Below (top.countAtLeast (.int b)) := by
  refine h.map (fun x => Number.ofBool ((Number.int b).le x))
    (fun n => if b.toInt ≤ n.toInt then 1 else 0) (fun n => ?_) (fun {m n} hmn => ?_) rfl rfl
  · simp only [Number.ofBool, Number.le_int]
    split <;> rfl
  · have hone : (1 : Int64).toInt = 1 := rfl
    have hzero : (0 : Int64).toInt = 0 := rfl
    split <;> split <;> omega

end Roll

end DiceNotation
