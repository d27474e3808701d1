import DiceNotation.Proofs.Grammar.Groups

/-!
# Exchanging the right operand of an operator

Reading sees of the tokens after an operator only what they are read as. If others are read in the
same way there, the whole expression stays the same.

* `climb_exchange`, `read_exchange`: everything else is read as before.
-/

namespace DiceNotation.Climbing

/-- Two results of reading that are the same, or that differ only in what is left after some
operator. -/
def SameBefore (b : BinaryOperator) (ts ts' : List Token)
    (found found' : Option (Expr × List Token)) : Prop :=
  found = found' ∨ ∃ e mid, found = some (e, mid ++ .op (.binary b) :: ts) ∧
    found' = some (e, mid ++ .op (.binary b) :: ts')

variable {b : BinaryOperator} {ts ts' : List Token}

theorem sameBefore_operand (us : List Token)
    (ih : ∀ left us', us'.length < us.length → SameBefore b ts ts'
      (climb left (us' ++ .op (.binary b) :: ts)) (climb left (us' ++ .op (.binary b) :: ts'))) :
    SameBefore b ts ts' (operand (us ++ .op (.binary b) :: ts))
      (operand (us ++ .op (.binary b) :: ts')) := by
  cases us with
  | nil => exact .inl (by rw [List.nil_append, List.nil_append, operand_binary, operand_binary])
  | cons t us =>
    rw [List.cons_append, List.cons_append]
    cases t with
    | int n => exact .inr ⟨_, us, operand_int n _, operand_int n _⟩
    | faces f => exact .inr ⟨_, us, operand_faces f _, operand_faces f _⟩
    | closed => exact .inl (by rw [operand_closed, operand_closed])
    | opened =>
      rw [operand_opened, operand_opened]
      rcases ih none us (Nat.lt_add_one _) with heq | ⟨e, mid, hfound, hfound'⟩
      · exact .inl (by rw [heq])
      · rw [hfound, hfound']
        cases mid with
        | nil => exact .inl rfl
        | cons t mid =>
          cases t with
          | closed => exact .inr ⟨e, mid, rfl, rfl⟩
          | int | faces | op | opened => exact .inl rfl
    | op o =>
      cases o with
      | factorial => exact .inl (by rw [operand_factorial, operand_factorial])
      | binary b' => exact .inl (by rw [operand_binary, operand_binary])
      | sign s =>
        rw [operand_sign, operand_sign]
        rcases ih (some (.sign s)) us (Nat.lt_add_one _) with heq | ⟨x, mid, hfound, hfound'⟩
        · exact .inl (by rw [heq])
        · rw [hfound, hfound']
          exact .inr ⟨_, mid, rfl, rfl⟩

/-- If two sequences of tokens are read in the same way on the right of an operator, so they are
with the operator and any tokens before it. -/
theorem climb_exchange (h : climb (some (.binary b)) ts = climb (some (.binary b)) ts')
    (left : Option Operator) (us : List Token) :
    SameBefore b ts ts' (climb left (us ++ .op (.binary b) :: ts))
      (climb left (us ++ .op (.binary b) :: ts')) := by
  refine (induction_on_reading
    (O := fun all => ∀ us, all = us ++ .op (.binary b) :: ts →
      SameBefore b ts ts' (operand all) (operand (us ++ .op (.binary b) :: ts')))
    (C := fun left all => ∀ us, all = us ++ .op (.binary b) :: ts →
      SameBefore b ts ts' (climb left all) (climb left (us ++ .op (.binary b) :: ts')))
    (E := fun left x all => ∀ us, all = us ++ .op (.binary b) :: ts →
      SameBefore b ts ts' (extend left x all) (extend left x (us ++ .op (.binary b) :: ts')))
    ?operand_of ?climb_of ?stops ?factorial ?binary).2.1 left _ us rfl
  case operand_of =>
    rintro _ ih us rfl
    refine sameBefore_operand us fun left us' hlt => ih left _ ?_ us' rfl
    simpa using hlt
  case climb_of =>
    rintro left _ hoperand hextend us rfl
    rw [climb_eq, climb_eq]
    rcases hoperand us rfl with heq | ⟨x, mid, hfound, hfound'⟩
    · exact .inl (by rw [heq])
    · have hmid := hextend x _ hfound mid rfl
      rw [hfound, hfound']
      exact hmid
  case stops =>
    rintro left x _ hs us rfl
    have hs' : Stops left (us ++ .op (.binary b) :: ts') := by
      cases us with
      | nil => exact hs
      | cons t us =>
        intro next hnext
        rw [extension?_cons_append] at hnext
        exact hs next (by rw [extension?_cons_append, hnext])
    exact .inr ⟨x, us, extend_of_stops x hs, extend_of_stops x hs'⟩
  case factorial =>
    intro left x rest htake ih us hus
    rw [extend_factorial x rest htake]
    cases us with
    | nil => cases hus
    | cons u us =>
      obtain ⟨rfl, rfl⟩ := List.cons.inj hus
      rw [List.cons_append, extend_factorial x _ htake]
      exact ih us rfl
  case binary =>
    intro left x b' rest htake hright hrest us hus
    rw [extend_binary x rest htake]
    cases us with
    | nil =>
      cases hus
      rw [List.nil_append, extend_binary x ts' htake, h]
      exact .inl rfl
    | cons u us =>
      obtain ⟨rfl, rfl⟩ := List.cons.inj hus
      rw [List.cons_append, extend_binary x _ htake]
      rcases hright us rfl with heq | ⟨y, mid, hfound, hfound'⟩
      · exact .inl (by rw [heq])
      · have hmid := hrest y _ hfound mid rfl
        rw [hfound, hfound']
        exact hmid

theorem read_exchange (h : climb (some (.binary b)) ts = climb (some (.binary b)) ts')
    {us : List Token} {e : Expr} (he : read (us ++ .op (.binary b) :: ts) = some e) :
    read (us ++ .op (.binary b) :: ts') = some e := by
  rw [read_eq_some_iff] at he ⊢
  rcases climb_exchange h none us with heq | ⟨x, mid, hfound, -⟩
  · rw [← heq, he]
  · -- nothing is left after the whole expression
    rw [hfound] at he
    cases mid <;> cases he

end DiceNotation.Climbing
