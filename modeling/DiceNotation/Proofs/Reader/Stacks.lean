import DiceNotation.Proofs.Grammar.Matching
import DiceNotation.Proofs.Reader.Frames

/-!
# What the stacks hold

The reader stacks one operand for each waiting binary operator, and one more unless an operand is
expected, and each with its number of levels. So there is always an operand to take, and a loop of
the reader fails only where a group is missing or an expression becomes too deep. Everything that
waits keeps the index of its token, and the waiting groups are those that are still open.

* `Balanced`: what the stacks hold after tokens that were accepted.
* `Reduces`: the reductions that a loop of the reader makes.
* `reduceBefore_reduces`, `reduceGroup_reduces`, `reduceAll_reduces`: how the loops end.
* `Tracks`: what the stacks have to do with the tokens that were read.
-/

namespace DiceNotation

/-! ## Waiting -/

def Operator.isBinary : Operator → Bool
  | binary _ => true
  | _ => false

namespace Pending

def token : Pending → Token
  | op o _ => .op o
  | group _ => .opened

def index : Pending → Nat
  | op _ i => i
  | group i => i

def isBinary : Pending → Bool
  | op o _ => o.isBinary
  | group _ => false

def group? : Pending → Option Nat
  | op _ _ => none
  | group i => some i

end Pending

/-- A tree that remembers nothing, with its number of levels, which is at most the greatest one. -/
structure Operand.IsSound (x : Operand) : Prop where
  depth_eq : x.depth = x.expr.depth
  depth_le : x.depth ≤ maxDepth
  clear_eq : x.expr.clear = x.expr

namespace Reader

/-- The indices of the waiting groups, the innermost first. -/
def groups (ps : List Pending) : List Nat := ps.filterMap Pending.group?

/-- How many operands wait for the right operand of an operator. -/
def held (ps : List Pending) : Nat := ps.countP Pending.isBinary

@[simp] theorem groups_nil : groups [] = [] := rfl

@[simp] theorem groups_op (o : Operator) (i : Nat) (ps : List Pending) :
    groups (.op o i :: ps) = groups ps := rfl

@[simp] theorem groups_group (i : Nat) (ps : List Pending) :
    groups (.group i :: ps) = i :: groups ps := rfl

@[simp] theorem held_nil : held [] = 0 := rfl

@[simp] theorem held_op (o : Operator) (i : Nat) (ps : List Pending) :
    held (.op o i :: ps) = held ps + o.isBinary.toNat := by
  cases h : o.isBinary <;> simp [held, Pending.isBinary, h]

@[simp] theorem held_group (i : Nat) (ps : List Pending) : held (.group i :: ps) = held ps := rfl

/-- The stacks hold as many operands as the waiting operators and the place of the next token tell,
and sound ones only. -/
structure Balanced (r : Reader) : Prop where
  length_operands : r.operands.length = held r.pending + (!r.expectsOperand).toNat
  sound : ∀ x ∈ r.operands, x.IsSound

theorem balanced_start : start.Balanced where
  length_operands := rfl
  sound _ hx := absurd hx List.not_mem_nil

/-! ## One reduction -/

namespace Balanced

variable {r : Reader}

theorem length_of_expecting (h : r.Balanced) (hflag : r.expectsOperand = true) :
    r.operands.length = held r.pending := by
  rw [h.length_operands, hflag]
  rfl

theorem of_complete (h : r.Balanced) (hflag : r.expectsOperand = false) :
    Balanced ⟨r.pending, r.operands, false⟩ := hflag ▸ h

/-- A new tree in the place of the operands of an operator. -/
theorem deepen {ps : List Pending} {os : List Operand} {e : Expr} {depth : Nat} (i : Nat)
    (hlen : os.length = held ps) (hsound : ∀ x ∈ os, x.IsSound) (hdepth : depth + 1 = e.depth)
    (hclear : e.clear = e) :
    (∃ os', Reader.deepen i e depth os = .ok os' ∧ Balanced ⟨ps, os', false⟩) ∨
      Reader.deepen i e depth os = .error (.tooDeep i) := by
  rw [deepen_eq]
  split
  · next hle =>
    have hnew : ∀ x ∈ ⟨e, depth + 1⟩ :: os, x.IsSound :=
      List.forall_mem_cons.mpr ⟨⟨hdepth, hle, hclear⟩, hsound⟩
    exact .inl ⟨_, rfl, congrArg (· + 1) hlen, hnew⟩
  · exact .inr rfl

/-- The operator on the top finds its operands, and leaves one in their place. -/
theorem reduce {o : Operator} {i : Nat} {ps : List Pending} {os : List Operand}
    (h : Balanced ⟨.op o i :: ps, os, false⟩) :
    (∃ os', Reader.reduce o i os = .ok os' ∧ Balanced ⟨ps, os', false⟩) ∨
      Reader.reduce o i os = .error (.tooDeep i) := by
  have hlen : os.length = held ps + o.isBinary.toNat + 1 := held_op o i ps ▸ h.length_operands
  match o, os with
  | .sign s, x :: os =>
    obtain ⟨hx, hos⟩ := List.forall_mem_cons.mp h.sound
    refine Balanced.deepen i (Nat.succ.inj hlen) hos ?_ ?_
    · rw [hx.depth_eq, Expr.depth]
    · rw [Expr.clear, hx.clear_eq]
  | .factorial, x :: os =>
    obtain ⟨hx, hos⟩ := List.forall_mem_cons.mp h.sound
    refine Balanced.deepen i (Nat.succ.inj hlen) hos ?_ ?_
    · rw [hx.depth_eq, Expr.depth]
    · rw [Expr.clear, hx.clear_eq]
  | .binary b, y :: x :: os =>
    obtain ⟨hy, hrest⟩ := List.forall_mem_cons.mp h.sound
    obtain ⟨hx, hos⟩ := List.forall_mem_cons.mp hrest
    refine Balanced.deepen i (Nat.succ.inj (Nat.succ.inj hlen)) hos ?_ ?_
    · rw [hx.depth_eq, hy.depth_eq, Expr.depth]
    · rw [Expr.clear, hx.clear_eq, hy.clear_eq]
  | .binary b, [x] => cases hlen

/-- An operator that follows its operand finds it as if it waited on the top of the stack. -/
theorem reduce_factorial {ps : List Pending} {os : List Operand} (h : Balanced ⟨ps, os, false⟩)
    (i : Nat) :
    (∃ os', Reader.reduce .factorial i os = .ok os' ∧ Balanced ⟨ps, os', false⟩) ∨
      Reader.reduce .factorial i os = .error (.tooDeep i) := by
  have hwaits : Balanced ⟨.op .factorial i :: ps, os, false⟩ := ⟨h.length_operands, h.sound⟩
  exact hwaits.reduce

end Balanced

/-! ## The loops -/

/-- Waiting operators take their operands, the top one first, and any number of them. -/
inductive Reduces : Reader → Reader → Prop where
  | refl (r : Reader) : Reduces r r
  | step {o : Operator} {i : Nat} {ps : List Pending} {os os' : List Operand} {r : Reader}
    (hreduce : reduce o i os = .ok os') (hrest : Reduces ⟨ps, os', false⟩ r) :
    Reduces ⟨.op o i :: ps, os, false⟩ r

namespace Reduces

variable {r r' : Reader}

theorem suffix (h : Reduces r r') : r'.pending <:+ r.pending := by
  induction h with
  | refl => exact List.suffix_refl _
  | step _ _ ih => exact ih.trans (List.suffix_cons _ _)

/-- No group is closed by a reduction. -/
theorem groups_eq (h : Reduces r r') : groups r'.pending = groups r.pending := by
  induction h with
  | refl => rfl
  | step _ _ ih => exact ih

end Reduces

/-- One of the reductions fails. -/
def FailsWith (r : Reader) (c : ParseError) : Prop :=
  ∃ o i ps os, Reduces r ⟨.op o i :: ps, os, false⟩ ∧ reduce o i os = .error c

theorem FailsWith.step {o : Operator} {i : Nat} {ps : List Pending} {os os' : List Operand}
    {c : ParseError} (hreduce : reduce o i os = .ok os') (h : FailsWith ⟨ps, os', false⟩ c) :
    FailsWith ⟨.op o i :: ps, os, false⟩ c := by
  obtain ⟨o', i', qs, os'', hreduces, herror⟩ := h
  exact ⟨o', i', qs, os'', .step hreduce hreduces, herror⟩

theorem reduceBefore_reduces (next : Operator) (ps : List Pending) (os : List Operand) :
    (∃ ps' os', reduceBefore next ps os = .ok (ps', os') ∧
      Reduces ⟨ps, os, false⟩ ⟨ps', os', false⟩) ∨
    ∃ c, reduceBefore next ps os = .error c ∧ FailsWith ⟨ps, os, false⟩ c := by
  induction ps generalizing os with
  | nil => exact .inl ⟨_, _, rfl, .refl _⟩
  | cons p ps ih =>
    cases p with
    | group i => exact .inl ⟨_, _, rfl, .refl _⟩
    | op o i =>
      rw [reduceBefore]
      split
      · cases hreduce : reduce o i os with
        | error c => exact .inr ⟨c, rfl, o, i, ps, os, .refl _, hreduce⟩
        | ok os' =>
          rcases ih os' with ⟨ps', os'', hok, hrest⟩ | ⟨c, herror, hfails⟩
          · exact .inl ⟨ps', os'', hok, .step hreduce hrest⟩
          · exact .inr ⟨c, herror, hfails.step hreduce⟩
      · exact .inl ⟨_, _, rfl, .refl _⟩

/-- The innermost group ends, or no group is open, or a reduction fails before that. -/
theorem reduceGroup_reduces (index : Nat) (ps : List Pending) (os : List Operand) :
    (∃ i ps' os', reduceGroup index ps os = .ok (ps', os') ∧
      Reduces ⟨ps, os, false⟩ ⟨.group i :: ps', os', false⟩) ∨
    (reduceGroup index ps os = .error (.unmatchedClose index) ∧ groups ps = []) ∨
    ∃ c, reduceGroup index ps os = .error c ∧ FailsWith ⟨ps, os, false⟩ c := by
  induction ps generalizing os with
  | nil => exact .inr (.inl ⟨rfl, rfl⟩)
  | cons p ps ih =>
    cases p with
    | group i => exact .inl ⟨i, _, _, rfl, .refl _⟩
    | op o i =>
      rw [reduceGroup]
      cases hreduce : reduce o i os with
      | error c => exact .inr (.inr ⟨c, rfl, o, i, ps, os, .refl _, hreduce⟩)
      | ok os' =>
        rcases ih os' with ⟨j, ps', os'', hok, hrest⟩ | hnone | ⟨c, herror, hfails⟩
        · exact .inl ⟨j, ps', os'', hok, .step hreduce hrest⟩
        · exact .inr (.inl hnone)
        · exact .inr (.inr ⟨c, herror, hfails.step hreduce⟩)

/-- Nothing waits at the end, or the innermost open group is named, or a reduction fails. -/
theorem reduceAll_reduces (ps : List Pending) (os : List Operand) :
    (∃ os', reduceAll ps os = .ok os' ∧ Reduces ⟨ps, os, false⟩ ⟨[], os', false⟩) ∨
    (∃ i is, reduceAll ps os = .error (.unclosedParen i) ∧ groups ps = i :: is) ∨
    ∃ c, reduceAll ps os = .error c ∧ FailsWith ⟨ps, os, false⟩ c := by
  induction ps generalizing os with
  | nil => exact .inl ⟨os, rfl, .refl _⟩
  | cons p ps ih =>
    cases p with
    | group i => exact .inr (.inl ⟨i, _, rfl, rfl⟩)
    | op o i =>
      rw [reduceAll]
      cases hreduce : reduce o i os with
      | error c => exact .inr (.inr ⟨c, rfl, o, i, ps, os, .refl _, hreduce⟩)
      | ok os' =>
        rcases ih os' with ⟨os'', hok, hrest⟩ | hopen | ⟨c, herror, hfails⟩
        · exact .inl ⟨os'', hok, .step hreduce hrest⟩
        · exact .inr (.inl hopen)
        · exact .inr (.inr ⟨c, herror, hfails.step hreduce⟩)

/-- An expression became too deep by one of the waiting operators. -/
def DeepensAt (ps : List Pending) (c : ParseError) : Prop :=
  ∃ o i, .op o i ∈ ps ∧ c = .tooDeep i

namespace Balanced

variable {r r' : Reader}

theorem reduces (h : r.Balanced) (hreduces : Reduces r r') : r'.Balanced := by
  induction hreduces with
  | refl => exact h
  | step hreduce _ ih =>
    rcases h.reduce with ⟨os', hok, hnext⟩ | hdeep
    · cases hok.symm.trans hreduce
      exact ih hnext
    · cases hdeep.symm.trans hreduce

/-- The operands are there, so a reduction fails for the depth alone. -/
theorem deepensAt_of_fails (h : r.Balanced) {c : ParseError} (hfails : r.FailsWith c) :
    DeepensAt r.pending c := by
  obtain ⟨o, i, ps, os, hreduces, herror⟩ := hfails
  rcases (h.reduces hreduces).reduce with ⟨os', hok, -⟩ | hdeep
  · cases hok.symm.trans herror
  · cases hdeep.symm.trans herror
    exact ⟨o, i, hreduces.suffix.mem List.mem_cons_self, rfl⟩

end Balanced

/-! ## Tokens that were read -/

/-- What the stacks have to do with the tokens that were read. -/
structure Tracks (ts : List Token) (r : Reader) : Prop where
  /-- Everything that waits came from the token with its index. -/
  token_at : ∀ p ∈ r.pending, ts[p.index]? = some p.token
  /-- The waiting groups are the open ones. -/
  nests : Nests ts (groups r.pending)
  flag : r.expectsOperand = Token.isSignPosition ts.getLast?
  /-- If an operand is expected, the last token waits for it. -/
  latest : r.expectsOperand = true → (r.pending = [] ∧ ts = []) ∨
    ∃ p ps us, r.pending = p :: ps ∧ ts = us ++ [p.token] ∧ p.index = us.length

theorem tracks_start : Tracks [] start where
  token_at := nofun
  nests := .balanced rfl
  flag := rfl
  latest _ := .inl ⟨rfl, rfl⟩

namespace Tracks

variable {ts : List Token} {r : Reader}

theorem token_at_append (h : Tracks ts r) {p : Pending} (hp : p ∈ r.pending) (us : List Token) :
    (ts ++ us)[p.index]? = some p.token := by
  have hat := h.token_at p hp
  rw [List.getElem?_append_left (List.getElem?_eq_some_iff.mp hat).1, hat]

/-- After a token that waits for its right operand or for its end. -/
theorem waits (h : Tracks ts r) {p : Pending} {ps : List Pending} {os : List Operand}
    (hp : p.index = ts.length) (hps : ps <:+ r.pending)
    (hnests : Nests (ts ++ [p.token]) (groups (p :: ps)))
    (hflag : Token.isSignPosition (some p.token) = true) :
    Tracks (ts ++ [p.token]) ⟨p :: ps, os, true⟩ where
  token_at := by
    refine List.forall_mem_cons.mpr ⟨?_, fun q hq => h.token_at_append (hps.mem hq) _⟩
    rw [hp]
    exact getElem?_append_cons ts [] _
  nests := hnests
  flag := by rw [List.getLast?_concat, hflag]
  latest _ := .inr ⟨p, ps, ts, rfl, rfl, hp⟩

/-- After a token with which an operand is complete. -/
theorem completes (h : Tracks ts r) {t : Token} {ps : List Pending} {os : List Operand}
    (hps : ps <:+ r.pending) (hnests : Nests (ts ++ [t]) (groups ps))
    (hflag : Token.isSignPosition (some t) = false) : Tracks (ts ++ [t]) ⟨ps, os, false⟩ where
  token_at p hp := h.token_at_append (hps.mem hp) _
  nests := hnests
  flag := by rw [List.getLast?_concat, hflag]
  latest := nofun

end Tracks

end Reader

end DiceNotation
