import DiceNotation.Proofs.Climbing.Basic
import DiceNotation.Proofs.Reader.Frames

/-!
# The reader climbs

Reading with two stacks and reading by recursion give the same expressions. Where the recursion
has read an operand, the reader holds it in frames around a smaller operand; the frames collapse
as soon as the next token shows that nothing extends them.

* `follows_reading`: whatever waits on the stacks, the reader follows the recursion.
* `ofTokens_eq_read`: the expression of a sequence of tokens is what the recursion reads, within
  the limit of depth.
-/

namespace DiceNotation.Reader

open Climbing

/-! ## Runs -/

/-- The outcome of reading the tokens that are left. -/
def run (r : Reader) (index : Nat) (ts : List Token) : Except ParseError (Option Expr) :=
  match r.pushAll index ts with
  | .error e => .error e
  | .ok r => r.finish

theorem run_nil (r : Reader) (i : Nat) : r.run i [] = r.finish := rfl

theorem run_cons (r : Reader) (i : Nat) (t : Token) (ts : List Token) :
    r.run i (t :: ts) = r.push i t >>= fun r => r.run (i + 1) ts := by
  rw [run, pushAll]
  rcases r.push i t with _ | r' <;> rfl

theorem run_error {r : Reader} {i : Nat} {t : Token} {ts : List Token} {c : ParseError}
    (h : r.push i t = .error c) : r.run i (t :: ts) = .error c := by
  rw [run_cons, h]
  rfl

/-! ## What waits -/

/-- The operator on the left of what is read next. -/
def waiting? : List Pending → Option Operator
  | .op o _ :: _ => some o
  | _ => none

theorem reduceBefore_of_not_takesFirst {next : Operator} {ps : List Pending}
    (h : takesFirst (waiting? ps) next = false) (os : List Operand) :
    reduceBefore next ps os = .ok (ps, os) := by
  cases ps with
  | nil => rfl
  | cons p ps =>
    cases p with
    | group i => rfl
    | op o i =>
      have ho : o.reducesBefore next = false := h
      rw [reduceBefore, ho, if_neg Bool.false_ne_true]

/-- The reader with an operand on top that stands within some frames. -/
def within (fs : List Frame) (x : Expr) (ps : List Pending) (os : List Operand) : Reader :=
  ⟨pendings fs ++ ps, .ofExpr x :: (lefts fs ++ os), false⟩

/-- The outcome of reading follows what the recursion found. If it found nothing, reading fails.
If it found an expression, that is too deep, or reading goes on with frames that are the
expression. -/
def Follows (ps : List Pending) (os : List Operand) (outcome : Except ParseError (Option Expr)) :
    Option (Expr × List Token) → Prop
  | none => ∃ c, outcome = .error c
  | some (e, rest) =>
    (maxDepth < e.depth ∧ ∃ i, outcome = .error (.tooDeep i)) ∨
      ∃ fs x i, plug fs x = e ∧ x.depth ≤ maxDepth ∧ (∀ f ∈ fs, Stops (some f.op) rest) ∧
        outcome = (within fs x ps os).run i rest

theorem follows_of_tooDeep {ps : List Pending} {os : List Operand}
    {outcome : Except ParseError (Option Expr)} {found : Option (Expr × List Token)} {i : Nat}
    (h : outcome = .error (.tooDeep i))
    (hdeep : ∀ e rest, found = some (e, rest) → maxDepth < e.depth) :
    Follows ps os outcome found := by
  rcases found with _ | ⟨e, rest⟩
  · exact ⟨_, h⟩
  · exact .inl ⟨hdeep e rest rfl, i, h⟩

/-- Reading in two parts. What the first part found must remain a part of the whole. -/
theorem Follows.bind {ps ps' : List Pending} {os os' : List Operand}
    {outcome : Except ParseError (Option Expr)} {found : Option (Expr × List Token)}
    {k : Expr × List Token → Option (Expr × List Token)} (h : Follows ps os outcome found)
    (hdeep : ∀ x mid e rest, k (x, mid) = some (e, rest) → x.depth ≤ e.depth)
    (hk : ∀ fs y i mid, found = some (plug fs y, mid) → y.depth ≤ maxDepth →
      (∀ f ∈ fs, Stops (some f.op) mid) →
      Follows ps' os' ((within fs y ps os).run i mid) (k (plug fs y, mid))) :
    Follows ps' os' outcome (found.bind k) := by
  rcases found with _ | ⟨x, mid⟩
  · exact h
  · rcases h with ⟨hx, i, hi⟩ | ⟨fs, y, i, rfl, hy, hfs, rfl⟩
    · exact follows_of_tooDeep hi fun e rest he =>
        Nat.lt_of_lt_of_le hx (hdeep x mid e rest he)
    · exact hk fs y i mid rfl hy hfs

/-! ## Single tokens -/

/-- After an operand only a closing parenthesis or an operator that extends it may stand. -/
theorem push_error_of_stops {r : Reader} {i : Nat} {t : Token} {ts : List Token}
    (hr : r.expectsOperand = false) (ht : extension? (t :: ts) = none) (hclosed : t ≠ .closed) :
    ∃ c, r.push i t = .error c := by
  cases t with
  | int n => exact ⟨_, by rw [push, hr, if_neg Bool.false_ne_true]⟩
  | faces f => exact ⟨_, by rw [push, hr, if_neg Bool.false_ne_true]⟩
  | opened => exact ⟨_, by rw [push, hr, if_neg Bool.false_ne_true]⟩
  | closed => exact absurd rfl hclosed
  | op o =>
    cases o with
    | sign s => exact ⟨_, by rw [push, pushOperator, hr]; rfl⟩
    | factorial => cases ht
    | binary b => cases ht

/-- The next operator makes the frames collapse and then stands beside what is below them. -/
theorem reduceBefore_within {next : Operator} {fs : List Frame} {ps : List Pending}
    (hfs : ∀ f ∈ fs, f.op.reducesBefore next = true)
    (hps : takesFirst (waiting? ps) next = false) (x : Expr) (os : List Operand) :
    reduceBefore next (pendings fs ++ ps) (.ofExpr x :: (lefts fs ++ os)) =
      collapse fs x >>= fun y => .ok (ps, .ofExpr y :: os) := by
  rw [reduceBefore_frames hfs]
  simp only [reduceBefore_of_not_takesFirst hps]

section Collapsed

variable {fs : List Frame} {ps : List Pending} {x y : Expr} (hc : collapse fs x = .ok y)
include hc

theorem push_factorial (os : List Operand) (i : Nat)
    (hfs : ∀ f ∈ fs, f.op.reducesBefore .factorial = true)
    (hps : takesFirst (waiting? ps) .factorial = false) :
    (within fs x ps os).push i (.op .factorial) =
      if (Expr.factorial none y).depth ≤ maxDepth then
        .ok (within [] (.factorial none y) ps os)
      else .error (.tooDeep i) := by
  have hloop := reduceBefore_within hfs hps x os
  rw [hc] at hloop
  rw [push, pushOperator, within, hloop]
  simp only [Operator.arity, bind, Except.bind, reduce_factorial]
  by_cases hd : (Expr.factorial none y).depth ≤ maxDepth
  · rw [if_pos hd, if_pos hd]
    rfl
  · rw [if_neg hd, if_neg hd]

theorem push_binary {b : BinaryOperator} (os : List Operand) (i : Nat)
    (hfs : ∀ f ∈ fs, f.op.reducesBefore b = true) (hps : takesFirst (waiting? ps) b = false) :
    (within fs x ps os).push i (.op (.binary b)) =
      .ok ⟨.op b i :: ps, .ofExpr y :: os, true⟩ := by
  have hloop := reduceBefore_within hfs hps x os
  rw [hc] at hloop
  rw [push, pushOperator, within, hloop]
  rfl

theorem push_closed_group (os : List Operand) (i j : Nat) :
    (within fs x (.group j :: ps) os).push i .closed = .ok (within [] y ps os) := by
  rw [push, closeGroup, within, reduceGroup_frames, hc]
  rfl

theorem push_closed_nil (os : List Operand) (i : Nat) :
    (within fs x [] os).push i .closed = .error (.unmatchedClose i) := by
  rw [push, closeGroup, within, reduceGroup_frames, hc]
  rfl

theorem finish_within_nil : (within fs x [] []).finish = .ok (some y) := by
  simp only [finish, within, reduceAll_frames, hc]
  rfl

theorem finish_within_group (os : List Operand) (j : Nat) :
    (within fs x (.group j :: ps) os).finish = .error (.unclosedParen j) := by
  simp only [finish, within, reduceAll_frames, hc]
  rfl

end Collapsed

section TooDeep

variable {fs : List Frame} {ps : List Pending} {x : Expr} {c : ParseError}
  (hc : collapse fs x = .error c)
include hc

theorem push_extension_error {next : Operator} (os : List Operand) (i : Nat)
    (hnext : next.arity ≠ .before) (hfs : ∀ f ∈ fs, f.op.reducesBefore next = true)
    (hps : takesFirst (waiting? ps) next = false) :
    (within fs x ps os).push i (.op next) = .error c := by
  have hloop := reduceBefore_within hfs hps x os
  rw [hc] at hloop
  rw [push, pushOperator, within, hloop]
  cases next with
  | sign s => exact absurd rfl hnext
  | factorial => rfl
  | binary b => rfl

theorem push_closed_error (os : List Operand) (i : Nat) :
    (within fs x ps os).push i .closed = .error c := by
  rw [push, closeGroup, within, reduceGroup_frames, hc]
  rfl

theorem finish_error (os : List Operand) : (within fs x ps os).finish = .error c := by
  simp only [finish, within, reduceAll_frames, hc]
  rfl

end TooDeep

theorem collapse_cases {fs : List Frame} {x : Expr} (hx : x.depth ≤ maxDepth) :
    collapse fs x = .ok (plug fs x) ∨
      maxDepth < (plug fs x).depth ∧ ∃ i, collapse fs x = .error (.tooDeep i) := by
  rcases Nat.lt_or_ge maxDepth (plug fs x).depth with h | h
  · exact .inr ⟨h, collapse_eq_tooDeep hx h⟩
  · exact .inl (collapse_eq_ok h)

/-! ## Following the recursion -/

theorem one_le_maxDepth : 1 ≤ maxDepth := by decide

theorem follows_within {fs : List Frame} {x : Expr} {rest : List Token} (ps : List Pending)
    (os : List Operand) (i : Nat) (hx : x.depth ≤ maxDepth)
    (hfs : ∀ f ∈ fs, Stops (some f.op) rest) :
    Follows ps os ((within fs x ps os).run i rest) (some (plug fs x, rest)) :=
  .inr ⟨fs, x, i, rfl, hx, hfs, rfl⟩

theorem follows_collapsed {x : Expr} (rest : List Token) (ps : List Pending) (os : List Operand)
    (i : Nat) (hx : x.depth ≤ maxDepth) :
    Follows ps os ((within [] x ps os).run i rest) (some (x, rest)) :=
  .inr ⟨[], x, i, rfl, hx, nofun, rfl⟩

/-- The end of a group. -/
theorem follows_leaveGroup {fs : List Frame} {x : Expr} {ts : List Token} (ps : List Pending)
    (os : List Operand) (i j : Nat) (hx : x.depth ≤ maxDepth) (hts : Stops none ts) :
    Follows ps os ((within fs x (.group j :: ps) os).run i ts) (leaveGroup (plug fs x, ts)) := by
  cases ts with
  | nil =>
    rw [run_nil]
    rcases collapse_cases hx with hc | ⟨-, c, hc⟩
    · exact ⟨_, finish_within_group hc os j⟩
    · exact ⟨_, finish_error hc os⟩
  | cons t ts =>
    by_cases ht : t = .closed
    · subst ht
      rcases collapse_cases hx with hc | ⟨hd, k, hc⟩
      · rw [run_cons, push_closed_group hc]
        by_cases hd : (plug fs x).depth ≤ maxDepth
        · exact follows_collapsed ts ps os (i + 1) hd
        · obtain ⟨k, hk⟩ := collapse_eq_tooDeep hx (Nat.lt_of_not_le hd)
          rw [hc] at hk
          cases hk
      · refine follows_of_tooDeep (run_error (push_closed_error hc os i)) fun e rest he => ?_
        cases he
        exact hd
    · obtain ⟨c, hc⟩ := push_error_of_stops (r := within fs x (.group j :: ps) os) (i := i) rfl
        (extension?_eq_none hts) ht
      rw [leaveGroup_eq_none ht]
      exact ⟨c, run_error hc⟩

/-- One operand, if the recursion is followed on what stands within it. -/
theorem follows_operand {ts : List Token}
    (ih : ∀ left inner, inner.length < ts.length → ∀ ps os i, waiting? ps = left → ps ≠ [] →
      Follows ps os ((⟨ps, os, true⟩ : Reader).run i inner) (climb left inner))
    (ps : List Pending) (os : List Operand) (i : Nat) (hne : ts ≠ [] ∨ ps ≠ []) :
    Follows ps os ((⟨ps, os, true⟩ : Reader).run i ts) (operand ts) := by
  cases ts with
  | nil =>
    rw [operand_nil]
    rcases ps with _ | ⟨_ | _, ps⟩
    · simp at hne
    · exact ⟨_, rfl⟩
    · exact ⟨_, rfl⟩
  | cons t ts =>
    cases t with
    | int n =>
      rw [operand_int]
      exact follows_collapsed ts ps os (i + 1) one_le_maxDepth
    | faces f =>
      rw [operand_faces]
      exact follows_collapsed ts ps os (i + 1) one_le_maxDepth
    | closed =>
      rw [operand_closed]
      rcases ps with _ | ⟨_ | _, ps⟩ <;> exact ⟨_, rfl⟩
    | opened =>
      rw [operand_opened]
      have h := ih none ts (Nat.lt_add_one _) (.group i :: ps) os (i + 1) rfl (by simp)
      refine h.bind (fun x mid e rest he => ?_) fun fs y k mid hmid hy hfs => ?_
      · obtain ⟨rfl, -⟩ := leaveGroup_eq_some_iff.mp he
        exact Nat.le_refl _
      · exact follows_leaveGroup ps os k i hy (stops_of_climb hmid)
    | op o =>
      cases o with
      | factorial =>
        rw [operand_factorial]
        exact ⟨_, rfl⟩
      | binary b =>
        rw [operand_binary]
        exact ⟨_, rfl⟩
      | sign s =>
        rw [operand_sign]
        have h := ih (some (.sign s)) ts (Nat.lt_add_one _) (.op (.sign s) i :: ps) os (i + 1)
          rfl (by simp)
        refine h.bind (fun x mid e rest he => ?_) fun fs y k mid hmid hy hfs => ?_
        · cases he
          exact Nat.le_succ _
        · -- the sign becomes the outermost frame
          have hstops : ∀ f ∈ fs ++ [.sign s i], Stops (some f.op) mid := by
            intro f hf
            rcases List.mem_append.mp hf with hf | hf
            · exact hfs f hf
            · rw [List.mem_singleton.mp hf]
              exact stops_of_climb hmid
          have h := follows_within ps os k hy hstops
          simpa [within, Frame.pending, Frame.op, Frame.index, Frame.operands, Frame.wrap] using h

theorem follows_factorial {fs : List Frame} {x : Expr} {left : Option Operator}
    {ts : List Token} {ps : List Pending}
    (ih : ∀ os i, (Expr.factorial none (plug fs x)).depth ≤ maxDepth →
      Follows ps os ((within [] (.factorial none (plug fs x)) ps os).run i ts)
        (extend left (.factorial none (plug fs x)) ts))
    (os : List Operand) (i : Nat) (hx : x.depth ≤ maxDepth)
    (hfs : ∀ f ∈ fs, f.op.reducesBefore .factorial = true)
    (hps : takesFirst (waiting? ps) .factorial = false) :
    Follows ps os ((within fs x ps os).run i (.op .factorial :: ts))
      (extend left (.factorial none (plug fs x)) ts) := by
  rcases collapse_cases hx with hc | ⟨hd, k, hc⟩
  · rw [run_cons, push_factorial hc os i hfs hps]
    by_cases hd : (Expr.factorial none (plug fs x)).depth ≤ maxDepth
    · rw [if_pos hd]
      exact ih os (i + 1) hd
    · rw [if_neg hd]
      exact follows_of_tooDeep rfl fun e rest he =>
        Nat.lt_of_lt_of_le (Nat.lt_of_not_le hd) (depth_le_of_extend he)
  · refine follows_of_tooDeep
      (run_error (push_extension_error hc os i (by decide) hfs hps)) fun e rest he => ?_
    have hle := depth_le_of_extend he
    rw [Expr.depth] at hle
    omega

theorem follows_binary {fs : List Frame} {x : Expr} {left : Option Operator}
    {b : BinaryOperator} {ts : List Token} {ps : List Pending}
    (hright : ∀ ps os i, waiting? ps = some (.binary b) → ps ≠ [] →
      Follows ps os ((⟨ps, os, true⟩ : Reader).run i ts) (climb (some (.binary b)) ts))
    (hrest : ∀ y mid, climb (some (.binary b)) ts = some (y, mid) →
      ∀ os i gs z, plug gs z = .binary none b (plug fs x) y → z.depth ≤ maxDepth →
        (∀ f ∈ gs, Stops (some f.op) mid) →
        Follows ps os ((within gs z ps os).run i mid)
          (extend left (.binary none b (plug fs x) y) mid))
    (os : List Operand) (i : Nat) (hx : x.depth ≤ maxDepth)
    (hfs : ∀ f ∈ fs, f.op.reducesBefore b = true)
    (hps : takesFirst (waiting? ps) b = false) :
    Follows ps os ((within fs x ps os).run i (.op (.binary b) :: ts))
      ((climb (some (.binary b)) ts).bind fun found =>
        extend left (.binary none b (plug fs x) found.1) found.2) := by
  rcases collapse_cases hx with hc | ⟨hd, k, hc⟩
  · rw [run_cons, push_binary hc os i hfs hps]
    have h := hright (.op b i :: ps) (.ofExpr (plug fs x) :: os) (i + 1) rfl (by simp)
    refine h.bind (fun y mid e rest he => ?_) fun gs z k mid hmid hz hgs => ?_
    · have hle : (Expr.binary none b (plug fs x) y).depth ≤ e.depth := depth_le_of_extend he
      rw [Expr.depth] at hle
      omega
    · -- the operator and its left operand become the outermost frame
      have hstops : ∀ f ∈ gs ++ [.binary b (plug fs x) i], Stops (some f.op) mid := by
        intro f hf
        rcases List.mem_append.mp hf with hf | hf
        · exact hgs f hf
        · rw [List.mem_singleton.mp hf]
          exact stops_of_climb hmid
      have h := hrest (plug gs z) mid hmid os k (gs ++ [.binary b (plug fs x) i]) z
        (plug_append gs _ z) hz hstops
      simpa [within, Frame.pending, Frame.op, Frame.index, Frame.operands] using h
  · refine follows_of_tooDeep
      (run_error (push_extension_error hc os i (by simp [Operator.arity]) hfs hps))
      fun e rest he => ?_
    obtain ⟨⟨y, mid⟩, -, he⟩ := Option.bind_eq_some_iff.mp he
    have hle : (Expr.binary none b (plug fs x) y).depth ≤ e.depth := depth_le_of_extend he
    rw [Expr.depth] at hle
    omega

/-- Whatever waits on the stacks, the reader follows the recursion: on operands, on expressions
and on operands that are extended. Only at the very beginning may there be nothing to read. -/
theorem follows_reading :
    (∀ ts ps os i, ts ≠ [] ∨ ps ≠ [] →
      Follows ps os ((⟨ps, os, true⟩ : Reader).run i ts) (operand ts)) ∧
    (∀ left ts ps os i, waiting? ps = left → ts ≠ [] ∨ ps ≠ [] →
      Follows ps os ((⟨ps, os, true⟩ : Reader).run i ts) (climb left ts)) ∧
    ∀ left x ts ps os i fs y, waiting? ps = left → plug fs y = x → y.depth ≤ maxDepth →
      (∀ f ∈ fs, Stops (some f.op) ts) →
      Follows ps os ((within fs y ps os).run i ts) (extend left x ts) := by
  refine induction_on_reading ?operand_of ?climb_of ?stops ?factorial ?binary
  case operand_of =>
    intro ts ih ps os i hne
    exact follows_operand (fun left inner hlt ps os i hps hne =>
      ih left inner hlt ps os i hps (.inr hne)) ps os i hne
  case climb_of =>
    intro left ts hoperand hextend ps os i hps hne
    rw [climb_eq]
    refine (hoperand ps os i hne).bind (fun x mid e rest he => depth_le_of_extend he)
      fun fs y k mid hmid hy hfs => ?_
    exact hextend _ mid hmid ps os k fs y hps rfl hy hfs
  case stops =>
    intro left x ts hstops ps os i fs y hps hx hy hfs
    rw [extend_of_stops x hstops, ← hx]
    exact follows_within ps os i hy hfs
  case factorial =>
    intro left x ts htake ih ps os i fs y hps hx hy hfs
    subst hx hps
    rw [extend_factorial _ ts htake]
    exact follows_factorial (fun os i hd => ih ps os i [] _ rfl rfl hd nofun) os i hy
      (fun f hf => hfs f hf _ rfl) htake
  case binary =>
    intro left x b ts htake hright hrest ps os i fs y hps hx hy hfs
    subst hx hps
    rw [extend_binary _ ts htake]
    exact follows_binary (fun ps os i hps hne => hright ps os i hps (.inr hne))
      (fun y mid hmid os i gs z hgs hz hstops =>
        hrest y mid hmid ps os i gs z rfl hgs hz hstops) os i hy (fun f hf => hfs f hf _ rfl) htake

/-! ## The whole sequence -/

theorem follows_climb {ts : List Token} (hne : ts ≠ []) :
    Follows [] [] (Expr.ofTokens ts) (climb none ts) :=
  follows_reading.2.1 none ts [] [] 0 rfl (.inl hne)

/-- Tokens that follow a whole expression are an error. -/
theorem exists_error_of_rest {fs : List Frame} {x : Expr} {t : Token} {ts : List Token} (i : Nat)
    (hx : x.depth ≤ maxDepth) (hts : Stops none (t :: ts)) :
    ∃ c, (within fs x [] []).run i (t :: ts) = .error c := by
  by_cases ht : t = .closed
  · subst ht
    rcases collapse_cases hx with hc | ⟨-, k, hc⟩
    · exact ⟨_, run_error (push_closed_nil hc [] i)⟩
    · exact ⟨_, run_error (push_closed_error hc [] i)⟩
  · obtain ⟨c, hc⟩ := push_error_of_stops (r := within fs x [] []) (i := i) rfl
      (extension?_eq_none hts) ht
    exact ⟨c, run_error hc⟩

theorem ne_nil_of_read {ts : List Token} {e : Expr} (h : read ts = some e) : ts ≠ [] := by
  rintro rfl
  have hlt := length_lt_of_climb (read_eq_some_iff.mp h)
  exact Nat.not_lt_zero _ hlt

theorem ofTokens_of_read {ts : List Token} {e : Expr} (h : read ts = some e)
    (hd : e.depth ≤ maxDepth) : Expr.ofTokens ts = .ok (some e) := by
  have hf := follows_climb (ne_nil_of_read h)
  rw [read_eq_some_iff.mp h] at hf
  rcases hf with ⟨hlt, -⟩ | ⟨fs, x, i, rfl, hx, -, hrun⟩
  · omega
  · rw [hrun, run_nil, finish_within_nil (collapse_eq_ok hd)]

theorem ofTokens_eq_tooDeep {ts : List Token} {e : Expr} (h : read ts = some e)
    (hd : maxDepth < e.depth) : ∃ i, Expr.ofTokens ts = .error (.tooDeep i) := by
  have hf := follows_climb (ne_nil_of_read h)
  rw [read_eq_some_iff.mp h] at hf
  rcases hf with ⟨-, i, hi⟩ | ⟨fs, x, i, rfl, hx, -, hrun⟩
  · exact ⟨i, hi⟩
  · obtain ⟨j, hj⟩ := collapse_eq_tooDeep hx hd
    exact ⟨j, by rw [hrun, run_nil, finish_error hj]⟩

theorem ofTokens_eq_error {ts : List Token} (hne : ts ≠ []) (h : read ts = none) :
    ∃ c, Expr.ofTokens ts = .error c := by
  have hf := follows_climb hne
  cases hc : climb none ts with
  | none =>
    rw [hc] at hf
    exact hf
  | some found =>
    obtain ⟨e, rest⟩ := found
    rw [hc] at hf
    rcases hf with ⟨-, i, hi⟩ | ⟨fs, x, i, rfl, hx, -, hrun⟩
    · exact ⟨_, hi⟩
    · cases rest with
      | nil => rw [read_eq_some_iff.mpr hc] at h; cases h
      | cons t rest =>
        rw [hrun]
        exact exists_error_of_rest i hx (stops_of_climb hc)

theorem ofTokens_cases (ts : List Token) :
    ts = [] ∧ Expr.ofTokens ts = .ok none ∨
      (∃ e, read ts = some e ∧ e.depth ≤ maxDepth ∧ Expr.ofTokens ts = .ok (some e)) ∨
      ∃ c, Expr.ofTokens ts = .error c := by
  by_cases hne : ts = []
  · subst hne
    exact .inl ⟨rfl, rfl⟩
  · cases hread : read ts with
    | none => exact .inr (.inr (ofTokens_eq_error hne hread))
    | some e =>
      rcases Nat.lt_or_ge maxDepth e.depth with hd | hd
      · obtain ⟨i, hi⟩ := ofTokens_eq_tooDeep hread hd
        exact .inr (.inr ⟨_, hi⟩)
      · exact .inr (.inl ⟨e, rfl, hd, ofTokens_of_read hread hd⟩)

theorem ofTokens_eq_some_iff {ts : List Token} {e : Expr} :
    Expr.ofTokens ts = .ok (some e) ↔ read ts = some e ∧ e.depth ≤ maxDepth := by
  refine ⟨fun h => ?_, fun h => ofTokens_of_read h.1 h.2⟩
  rcases ofTokens_cases ts with ⟨-, hts⟩ | ⟨x, hx, hd, hts⟩ | ⟨c, hts⟩
  · rw [hts] at h
    cases h
  · rw [hts] at h
    cases h
    exact ⟨hx, hd⟩
  · rw [hts] at h
    cases h

theorem ofTokens_eq_none_iff {ts : List Token} : Expr.ofTokens ts = .ok none ↔ ts = [] := by
  refine ⟨fun h => ?_, fun h => by subst h; rfl⟩
  rcases ofTokens_cases ts with ⟨hnil, -⟩ | ⟨x, -, -, hts⟩ | ⟨c, hts⟩
  · exact hnil
  · rw [hts] at h
    cases h
  · rw [hts] at h
    cases h

/-- The two stacks read what precedence climbing reads: nothing from no tokens, the expression
that the recursion makes of all tokens unless it is too deep, and otherwise an error. -/
theorem ofTokens_eq_read (ts : List Token) :
    (ts = [] → Expr.ofTokens ts = .ok none) ∧
      (∀ e, read ts = some e → e.depth ≤ maxDepth → Expr.ofTokens ts = .ok (some e)) ∧
      (∀ e, read ts = some e → maxDepth < e.depth →
        ∃ i, Expr.ofTokens ts = .error (.tooDeep i)) ∧
      (ts ≠ [] → read ts = none → ∃ c, Expr.ofTokens ts = .error c) := by
  refine ⟨?_, fun e => ofTokens_of_read, fun e => ofTokens_eq_tooDeep, ofTokens_eq_error⟩
  rintro rfl
  rfl

end DiceNotation.Reader
