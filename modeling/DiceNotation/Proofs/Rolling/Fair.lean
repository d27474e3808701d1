import DiceNotation.Proofs.Number.Totals
import DiceNotation.Proofs.Rolling.Requests
import DiceNotation.Proofs.Token.Literals

/-!
# Fair dice

A fair roller gives nothing but sides of the die that it rolls, so that no roll shows more than the
greatest value of the die.

* `Roller.IsFair.draw`: whatever a fair roller is asked for, it gives sides of the die.
* `Die.showsUpTo_sides`, `Faces.exists_showsUpTo`: the greatest values that dice show.
-/

namespace DiceNotation

variable {ρ : Type}

/-! ## Fair rollers -/

namespace Roller

/-- Whether a roller gives nothing but sides of the die, whether it rolls one die or many. -/
structure IsFair (ρ : Type) [Roller ρ] : Prop where
  roll (s : Sides) (r : ρ) : 1 ≤ ((roll s).run r).1.toNat ∧ ((roll s).run r).1.toNat ≤ s.count
  rollMany (n : Nat) (s : Sides) (r : ρ) :
    ∀ x ∈ ((rollMany n s).run r).1, 1 ≤ x.toNat ∧ x.toNat ≤ s.count

theorem IsFair.draw [Roller ρ] (h : IsFair ρ) (call : Call) (s : Sides) (r : ρ) :
    ∀ x ∈ ((call.draw s).run r).1, 1 ≤ x.toNat ∧ x.toNat ≤ s.count := by
  cases call with
  | one =>
    intro x hx
    cases List.mem_singleton.mp hx
    exact h.roll s r
  | many n => exact h.rollMany n s r

/-- What every step finds, whatever the state, all the steps of a row find. -/
theorem forall_mem_run_mapM {σ α β : Type} {P : β → Prop} {f : α → StateM σ β} {xs : List α}
    (h : ∀ x ∈ xs, ∀ s, P ((f x).run s).1) (s : σ) : ∀ y ∈ ((xs.mapM f).run s).1, P y := by
  induction xs generalizing s with
  | nil => exact fun y hy => absurd hy List.not_mem_nil
  | cons x xs ih =>
    obtain ⟨hx, hxs⟩ := List.forall_mem_cons.mp h
    rw [List.mapM_cons]
    exact List.forall_mem_cons.mpr ⟨hx s, ih hxs _⟩

theorem roll_script (s : Sides) (r : Script) :
    1 ≤ ((roll s).run r).1.toNat ∧ ((roll s).run r).1.toNat ≤ s.count := by
  have hpos := s.count_pos
  have hlt : s.count < 4294967296 := s.count_lt
  have hmod := Nat.mod_lt (r.next.1 - 1) hpos
  have hside : ((roll s).run r).1.toNat = (r.next.1 - 1) % s.count + 1 := by
    change (UInt32.ofNat ((r.next.1 - 1) % s.count + 1)).toNat = _
    rw [UInt32.toNat_ofNat']
    omega
  omega

theorem isFair_script : IsFair Script where
  roll := roll_script
  rollMany n s := by
    refine forall_mem_run_mapM fun t ht r => ?_
    obtain rfl : t = s := List.eq_of_mem_replicate ht
    exact roll_script t r

end Roller

/-! ## Dice -/

namespace Die

/-- Whether the greatest value of a die is an integer that no side exceeds. -/
def ShowsUpTo (die : Die) (m : Int64) : Prop :=
  die.max = .int m ∧ ∀ s, die.rolledSides = .ok s → ∀ x : UInt32, 1 ≤ x.toNat → x.toNat ≤ s.count →
    (die.shown x).IsIntUpTo m

theorem showsUpTo_sides (s : Sides) : (Die.sides s).ShowsUpTo (Int64.ofNat s.count) := by
  have hlt : s.count < 4294967296 := s.count_lt
  refine ⟨rfl, ?_⟩
  rintro _ ⟨⟩ x hx hle
  refine ⟨Int64.ofNat x.toNat, rfl, ?_⟩
  rw [Int64.toInt_ofNat_of_lt (by omega), Int64.toInt_ofNat_of_lt (by omega)]
  exact Int.ofNat_le.mpr hle

/-- Whether the faces of a die can be numbered within 32 bits. -/
def IsNumberable : Die → Prop
  | .sides _ => True
  | .faces f => f.length < UInt32.size

theorem IsNumberable.rolledSides_ne_error {die : Die} (h : die.IsNumberable) (c : RollError) :
    die.rolledSides ≠ .error c := by
  cases die with
  | sides s => exact nofun
  | faces f =>
    let s : Sides := ⟨f.length, f.length_pos, h⟩
    have hsides : Sides.ofInt? f.length = some s := Sides.ofInt?_eq_some_iff.mpr rfl
    rw [rolledSides, hsides]
    exact nofun

theorem rolledSides_of_not_isNumberable {f : Faces} (h : ¬(Die.faces f).IsNumberable) :
    (Die.faces f).rolledSides = .error (.tooManyFaces f.length) := by
  rw [rolledSides]
  cases hsides : Sides.ofInt? f.length with
  | none => rfl
  | some s =>
    have hcount := Sides.ofInt?_eq_some_iff.mp hsides
    have hlt := s.count_lt
    exact absurd (by rw [IsNumberable]; omega) h

end Die

namespace Faces

/-- The greatest of some integers and one more. -/
theorem exists_foldl_max {xs : List Number} (h : ∀ x ∈ xs, ∃ n, x = .int n) (best : Int64) :
    ∃ m, xs.foldl (fun best x => if best.lt x then x else best) (.int best) = .int m ∧
      best.toInt ≤ m.toInt ∧ ∀ x ∈ xs, x.IsIntUpTo m := by
  induction xs generalizing best with
  | nil => exact ⟨best, rfl, Int.le_refl _, fun x hx => absurd hx List.not_mem_nil⟩
  | cons x xs ih =>
    obtain ⟨⟨n, rfl⟩, hxs⟩ := List.forall_mem_cons.mp h
    rw [List.foldl_cons]
    by_cases hlt : best.toInt < n.toInt
    · rw [if_pos (Number.lt_int.mpr hlt)]
      obtain ⟨m, hm, hn, hrest⟩ := ih hxs n
      exact ⟨m, hm, by omega, List.forall_mem_cons.mpr ⟨⟨n, rfl, hn⟩, hrest⟩⟩
    · rw [if_neg fun h => hlt (Number.lt_int.mp h)]
      obtain ⟨m, hm, hbest, hrest⟩ := ih hxs best
      exact ⟨m, hm, hbest, List.forall_mem_cons.mpr ⟨⟨n, rfl, by omega⟩, hrest⟩⟩

theorem mem_get (f : Faces) (k : Nat) : f.get k ∈ f.toList := by
  unfold get
  rw [List.getD_eq_getElem?_getD]
  cases hk : f.toList[k - 1]? with
  | none => exact List.head_mem f.nonempty
  | some x => exact List.mem_of_getElem? hk

theorem exists_showsUpTo {f : Faces} (h : f.isInteger = true) :
    ∃ m, (Die.faces f).ShowsUpTo m := by
  have hfaces : ∀ x ∈ f.toList, ∃ n, x = .int n := fun x hx => eq_int_of_isInteger h hx
  obtain ⟨first, hfirst⟩ := hfaces f.first (List.head_mem f.nonempty)
  obtain ⟨m, hm, -, hall⟩ := exists_foldl_max hfaces first
  refine ⟨m, ?_, fun s hs x hx hle => hall _ (f.mem_get x.toNat)⟩
  change f.max = .int m
  rw [Faces.max, hfirst, hm]

end Faces

end DiceNotation
