import DiceNotation.Proofs.Grammar.Parentheses

/-!
# Which parentheses match

Two parentheses match if all parentheses between them belong together. What has been read of a
sequence of tokens is cut by the groups that are still open into pieces without any open group.

* `Nests`: tokens with their open groups, from the innermost to the outermost; it grows with every
  token (`Nests.plain`, `Nests.opens`, `Nests.closes`).
* `Nests.firstUnmatched`: where no group is open, the next `)` is the first that matches nothing.
* `Nests.lastUnmatched`: the innermost open group is the last `(` that matches nothing.
-/

namespace DiceNotation

theorem exists_split_of_getElem? {α : Type} {xs : List α} {i : Nat} {x : α}
    (h : xs[i]? = some x) : ∃ us vs, xs = us ++ x :: vs ∧ us.length = i := by
  obtain ⟨hi, rfl⟩ := List.getElem?_eq_some_iff.mp h
  refine ⟨xs.take i, xs.drop (i + 1), ?_, List.length_take_of_le (Nat.le_of_lt hi)⟩
  rw [← List.drop_eq_getElem_cons hi, List.take_append_drop]

theorem getElem?_append_cons {α : Type} (us vs : List α) (x : α) :
    (us ++ x :: vs)[us.length]? = some x := by
  rw [List.getElem?_append_right (Nat.le_refl _), Nat.sub_self, List.getElem?_cons_zero]

/-! ## Matching -/

/-- Whether the parentheses at two indices belong together. -/
def Matches (ts : List Token) (i j : Nat) : Prop :=
  ∃ us vs ws, ts = us ++ .opened :: vs ++ .closed :: ws ∧ Balanced vs ∧ us.length = i ∧
    (us ++ .opened :: vs).length = j

/-- Whether there is a `)` at an index that no `(` matches. -/
def UnmatchedClose (ts : List Token) (j : Nat) : Prop :=
  ts[j]? = some .closed ∧ ∀ i, ¬Matches ts i j

/-- Whether there is a `(` at an index that no `)` matches. -/
def UnmatchedOpen (ts : List Token) (i : Nat) : Prop :=
  ts[i]? = some .opened ∧ ∀ j, ¬Matches ts i j

theorem Balanced.enclosed {ts : List Token} (h : Balanced ts) :
    Balanced (.opened :: ts ++ [.closed]) := by
  rw [Balanced, List.cons_append, DiceNotation.openAfter, openAfter_append, h.openAfter]
  rfl

/-- Where fewer groups are open at the end than at the beginning, one of these is closed first. -/
theorem exists_close {n m : Nat} {ts : List Token} (h : openAfter (n + 1) ts = some m)
    (hm : m ≤ n) : ∃ us vs, ts = us ++ .closed :: vs ∧ Balanced us ∧ openAfter n vs = some m := by
  induction hlen : ts.length using Nat.strongRecOn generalizing n ts with
  | ind len ih =>
    cases ts with
    | nil =>
      cases h
      omega
    | cons t ts =>
      have plain {t : Token} (ht : t.isPayload = true) (hrest : openAfter (n + 1) ts = some m)
          (hlt : ts.length < len) :
          ∃ us vs, t :: ts = us ++ .closed :: vs ∧ Balanced us ∧ openAfter n vs = some m := by
        obtain ⟨us, vs, rfl, hus, hvs⟩ := ih _ hlt hrest hm rfl
        refine ⟨t :: us, vs, rfl, ?_, hvs⟩
        cases t with
        | opened | closed => cases ht
        | _ => exact hus
      rw [List.length_cons] at hlen
      cases t with
      | closed => exact ⟨[], ts, rfl, rfl, h⟩
      | opened =>
        -- the group that opens here is closed before the one that is looked for
        obtain ⟨us, rest, rfl, hus, hrest⟩ := ih _ (by omega) (n := n + 1) h (by omega) rfl
        rw [List.length_append, List.length_cons] at hlen
        obtain ⟨vs, ws, rfl, hvs, hws⟩ := ih _ (by omega) hrest hm rfl
        have hgroup := hus.enclosed.append hvs
        exact ⟨.opened :: us ++ .closed :: vs, ws, by simp, by simpa using hgroup, hws⟩
      | int k => exact plain rfl h (by omega)
      | faces f => exact plain rfl h (by omega)
      | op o => exact plain rfl h (by omega)

/-- Among balanced tokens every `(` is matched. -/
theorem Balanced.exists_close {us vs : List Token} (h : Balanced (us ++ .opened :: vs)) :
    ∃ xs ys, vs = xs ++ .closed :: ys ∧ Balanced xs := by
  rw [Balanced, openAfter_append] at h
  obtain ⟨n, -, hn⟩ := Option.bind_eq_some_iff.mp h
  obtain ⟨xs, ys, rfl, hxs, -⟩ := DiceNotation.exists_close (n := n) hn (Nat.zero_le n)
  exact ⟨xs, ys, rfl, hxs⟩

/-! ## Open groups -/

/-- Tokens with the indices of the groups that are open after them, the innermost first. -/
inductive Nests : List Token → List Nat → Prop where
  | balanced {ts : List Token} : Balanced ts → Nests ts []
  | group {us vs : List Token} {is : List Nat} :
      Nests us is → Balanced vs → Nests (us ++ .opened :: vs) (us.length :: is)

namespace Nests

variable {ts vs : List Token} {is : List Nat}

theorem append (h : Nests ts is) (hvs : Balanced vs) : Nests (ts ++ vs) is := by
  cases h with
  | balanced hts => exact .balanced (hts.append hvs)
  | group hus hinner =>
    rw [List.append_assoc, List.cons_append]
    exact .group hus (hinner.append hvs)

theorem plain {t : Token} (h : Nests ts is) (ht : t.isPayload = true) : Nests (ts ++ [t]) is := by
  refine h.append ?_
  cases t with
  | opened | closed => cases ht
  | _ => rfl

theorem opens (h : Nests ts is) : Nests (ts ++ [.opened]) (ts.length :: is) := .group h rfl

theorem closes {i : Nat} (h : Nests ts (i :: is)) : Nests (ts ++ [.closed]) is := by
  cases h with
  | group hus hinner => simpa using hus.append hinner.enclosed

theorem balanced_of_nil (h : Nests ts []) : Balanced ts := by
  cases h with
  | balanced hts => exact hts

end Nests

/-- Open groups are counted by `openAfter`. -/
theorem Nests.exists_append {n : Nat} {us ts : List Token} {is : List Nat} (h : Nests us is)
    (hts : openAfter is.length ts = some n) : ∃ js, Nests (us ++ ts) js ∧ js.length = n := by
  induction ts generalizing us is with
  | nil =>
    cases hts
    exact ⟨is, by rwa [List.append_nil], rfl⟩
  | cons t ts ih =>
    rw [List.append_cons]
    cases t with
    | opened => exact ih h.opens hts
    | closed =>
      cases is with
      | nil => cases hts
      | cons i is => exact ih h.closes hts
    | int k | faces f | op o => exact ih (h.plain rfl) hts

theorem exists_nests {n : Nat} {ts : List Token} (h : openAfter 0 ts = some n) :
    ∃ is, Nests ts is ∧ is.length = n := by
  have hnil : Nests [] [] := .balanced rfl
  exact hnil.exists_append h

/-- Among balanced tokens every `)` is matched. -/
theorem Balanced.exists_open {us vs : List Token} (h : Balanced (us ++ .closed :: vs)) :
    ∃ xs ys, us = xs ++ .opened :: ys ∧ Balanced ys := by
  rw [Balanced, openAfter_append] at h
  obtain ⟨n, hn, hrest⟩ := Option.bind_eq_some_iff.mp h
  obtain ⟨is, his, hlen⟩ := exists_nests hn
  cases his with
  | balanced hus =>
    cases hlen
    cases hrest
  | group _ hinner => exact ⟨_, _, rfl, hinner⟩

namespace Nests

variable {ts : List Token} {is : List Nat}

theorem firstUnmatched (h : Nests ts []) (rest : List Token) :
    UnmatchedClose (ts ++ .closed :: rest) ts.length ∧
      ∀ j < ts.length, ¬UnmatchedClose (ts ++ .closed :: rest) j := by
  have hts := h.balanced_of_nil
  refine ⟨⟨getElem?_append_cons ts rest _, ?_⟩, ?_⟩
  · rintro i ⟨us, vs, ws, hsplit, hvs, -, hlen⟩
    obtain ⟨rfl, -⟩ := List.append_inj hsplit hlen.symm
    exact not_balanced_of_opened hvs hts
  · rintro j hj ⟨hclosed, hmatches⟩
    rw [List.getElem?_append_left hj] at hclosed
    obtain ⟨us, vs, rfl, rfl⟩ := exists_split_of_getElem? hclosed
    obtain ⟨xs, ys, rfl, hys⟩ := hts.exists_open
    exact hmatches xs.length ⟨xs, ys, _, List.append_assoc _ _ _, hys, rfl, rfl⟩

theorem lastUnmatched {i : Nat} (h : Nests ts (i :: is)) :
    UnmatchedOpen ts i ∧ ∀ j, i < j → ¬UnmatchedOpen ts j := by
  cases h with
  | @group us vs _ hus hvs =>
    refine ⟨⟨getElem?_append_cons us vs _, ?_⟩, ?_⟩
    · rintro j ⟨us', inner, ws, hsplit, hinner, hlen, -⟩
      rw [List.append_assoc, List.cons_append] at hsplit
      obtain ⟨-, hrest⟩ := List.append_inj hsplit hlen.symm
      rw [(List.cons.inj hrest).2, Balanced, openAfter_closed hinner] at hvs
      cases hvs
    · rintro j hj ⟨hopened, hmatches⟩
      obtain ⟨xs, ys, hsplit, rfl⟩ := exists_split_of_getElem? hopened
      rcases List.append_eq_append_iff.mp hsplit with ⟨as, rfl, has⟩ | ⟨as, rfl, -⟩
      · cases as with
        | nil => simp at hj
        | cons a as =>
          obtain ⟨rfl, rfl⟩ := List.cons.inj has
          obtain ⟨ps, qs, rfl, hps⟩ := hvs.exists_close
          exact hmatches _ ⟨_, ps, qs, by simp, hps, rfl, rfl⟩
      · rw [List.length_append] at hj
        omega

end Nests

end DiceNotation
