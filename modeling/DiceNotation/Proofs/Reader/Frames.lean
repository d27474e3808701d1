import DiceNotation.Expr.Reading

/-!
# Frames of the reader

The two stacks of the reader hold frames: operators that wait for their right operand, with the
operand on their left. All three loops of the reader collapse frames around the operand on top,
and differ only in where they end:

* `reduceBefore_frames`, `reduceGroup_frames`, `reduceAll_frames`: a loop collapses the frames
  and goes on below them.
* `collapse_eq_ok`, `collapse_eq_tooDeep`: the frames collapse to the expression around the
  operand, unless that is too deep.
-/

namespace DiceNotation

/-- An operand with the depth that belongs to it. -/
def Operand.ofExpr (e : Expr) : Operand := ⟨e, e.depth⟩

/-- An operator that waits for its right operand, with what stands before it and the index of its
token. -/
inductive Frame where
  | sign (s : Sign) (index : Nat)
  | binary (b : BinaryOperator) (left : Expr) (index : Nat)

namespace Frame

def op : Frame → Operator
  | sign s _ => .sign s
  | binary b _ _ => .binary b

def index : Frame → Nat
  | sign _ i => i
  | binary _ _ i => i

def pending (f : Frame) : Pending := .op f.op f.index

/-- What the frame keeps on the stack of operands. -/
def operands : Frame → List Operand
  | sign _ _ => []
  | binary _ x _ => [.ofExpr x]

/-- The expression that the frame makes of its right operand. -/
def wrap : Frame → Expr → Expr
  | sign s _, y => .sign none s y
  | binary b x _, y => .binary none b x y

theorem depth_lt_wrap (f : Frame) (x : Expr) : x.depth < (f.wrap x).depth := by
  cases f with
  | sign s i => exact Nat.lt_add_one _
  | binary b y i => exact Nat.lt_add_one_of_le (Nat.le_max_right _ _)

end Frame

namespace Reader

/-! ## Stacks of frames -/

/-- The waiting operators of some frames. -/
def pendings (fs : List Frame) : List Pending := fs.map Frame.pending

/-- The operands of some frames. -/
def lefts (fs : List Frame) : List Operand := fs.flatMap Frame.operands

/-- The expression that some frames, the innermost first, make of an operand. -/
def plug (fs : List Frame) (x : Expr) : Expr := fs.foldl (fun x f => f.wrap x) x

@[simp] theorem pendings_nil : pendings [] = [] := rfl

@[simp] theorem lefts_nil : lefts [] = [] := rfl

@[simp] theorem plug_nil (x : Expr) : plug [] x = x := rfl

@[simp] theorem pendings_cons (f : Frame) (fs : List Frame) :
    pendings (f :: fs) = f.pending :: pendings fs := rfl

@[simp] theorem lefts_cons (f : Frame) (fs : List Frame) :
    lefts (f :: fs) = f.operands ++ lefts fs := rfl

@[simp] theorem plug_cons (f : Frame) (fs : List Frame) (x : Expr) :
    plug (f :: fs) x = plug fs (f.wrap x) := rfl

@[simp] theorem pendings_append (fs gs : List Frame) :
    pendings (fs ++ gs) = pendings fs ++ pendings gs := List.map_append

@[simp] theorem lefts_append (fs gs : List Frame) : lefts (fs ++ gs) = lefts fs ++ lefts gs :=
  List.flatMap_append

@[simp] theorem plug_append (fs gs : List Frame) (x : Expr) :
    plug (fs ++ gs) x = plug gs (plug fs x) := List.foldl_append

theorem depth_le_plug (fs : List Frame) (x : Expr) : x.depth ≤ (plug fs x).depth := by
  induction fs generalizing x with
  | nil => exact Nat.le_refl _
  | cons f fs ih => exact Nat.le_trans (Nat.le_of_lt (f.depth_lt_wrap x)) (ih (f.wrap x))

/-! ## Collapsing -/

/-- Lets every frame take its right operand, the innermost first. -/
def collapse : List Frame → Expr → Except ParseError Expr
  | [], x => .ok x
  | f :: fs, x =>
    if (f.wrap x).depth ≤ maxDepth then collapse fs (f.wrap x) else .error (.tooDeep f.index)

theorem collapse_eq_ok {fs : List Frame} {x : Expr} (h : (plug fs x).depth ≤ maxDepth) :
    collapse fs x = .ok (plug fs x) := by
  induction fs generalizing x with
  | nil => rfl
  | cons f fs ih => rw [collapse, if_pos (Nat.le_trans (depth_le_plug fs _) h), ih h, plug_cons]

theorem collapse_eq_tooDeep {fs : List Frame} {x : Expr} (hx : x.depth ≤ maxDepth)
    (h : maxDepth < (plug fs x).depth) : ∃ i, collapse fs x = .error (.tooDeep i) := by
  induction fs generalizing x with
  | nil => exact absurd hx (Nat.not_le.mpr h)
  | cons f fs ih =>
    rw [collapse]
    split
    · next hf => exact ih hf h
    · exact ⟨f.index, rfl⟩

theorem deepen_eq (index : Nat) (e : Expr) (depth : Nat) (rest : List Operand) :
    deepen index e depth rest =
      if depth + 1 ≤ maxDepth then .ok (⟨e, depth + 1⟩ :: rest) else .error (.tooDeep index) := by
  unfold deepen
  split
  · rw [if_neg (by omega)]
  · rw [if_pos (by omega)]

theorem reduce_frame (f : Frame) (x : Expr) (os : List Operand) :
    reduce f.op f.index (.ofExpr x :: (f.operands ++ os)) =
      if (f.wrap x).depth ≤ maxDepth then .ok (.ofExpr (f.wrap x) :: os)
      else .error (.tooDeep f.index) := by
  cases f with
  | sign s i => exact deepen_eq _ _ _ _
  | binary b y i => exact deepen_eq _ _ _ _

theorem reduce_factorial (i : Nat) (x : Expr) (os : List Operand) :
    reduce .factorial i (.ofExpr x :: os) =
      if (Expr.factorial none x).depth ≤ maxDepth then
        .ok (.ofExpr (Expr.factorial none x) :: os)
      else .error (.tooDeep i) := deepen_eq _ _ _ _

/-! ## The loops -/

/-- What the loops of the reader share: as long as they meet frames, they reduce them. -/
theorem loop_frames {α : Type} {loop : List Pending → List Operand → Except ParseError α}
    {fs : List Frame}
    (hstep : ∀ f ∈ fs, ∀ ps os, loop (f.pending :: ps) os =
      reduce f.op f.index os >>= fun os => loop ps os)
    (x : Expr) (ps : List Pending) (os : List Operand) :
    loop (pendings fs ++ ps) (.ofExpr x :: (lefts fs ++ os)) =
      collapse fs x >>= fun y => loop ps (.ofExpr y :: os) := by
  induction fs generalizing x with
  | nil => rfl
  | cons f fs ih =>
    have hfirst := hstep f List.mem_cons_self (pendings fs ++ ps)
    have hrest := ih fun g hg => hstep g (List.mem_cons_of_mem f hg)
    rw [pendings_cons, lefts_cons, List.cons_append, List.append_assoc, hfirst, reduce_frame,
      collapse]
    by_cases hd : (f.wrap x).depth ≤ maxDepth
    · rw [if_pos hd, if_pos hd]
      exact hrest (f.wrap x)
    · rw [if_neg hd, if_neg hd]
      rfl

theorem reduceBefore_frames {next : Operator} {fs : List Frame}
    (h : ∀ f ∈ fs, f.op.reducesBefore next = true) (x : Expr) (ps : List Pending)
    (os : List Operand) :
    reduceBefore next (pendings fs ++ ps) (.ofExpr x :: (lefts fs ++ os)) =
      collapse fs x >>= fun y => reduceBefore next ps (.ofExpr y :: os) := by
  refine loop_frames (fun f hf ps os => ?_) x ps os
  rw [Frame.pending, reduceBefore, if_pos (h f hf)]
  rcases reduce f.op f.index os with _ | _ <;> rfl

theorem reduceGroup_frames (i : Nat) (fs : List Frame) (x : Expr) (ps : List Pending)
    (os : List Operand) :
    reduceGroup i (pendings fs ++ ps) (.ofExpr x :: (lefts fs ++ os)) =
      collapse fs x >>= fun y => reduceGroup i ps (.ofExpr y :: os) := by
  refine loop_frames (fun f _ ps os => ?_) x ps os
  rw [Frame.pending, reduceGroup]
  rcases reduce f.op f.index os with _ | _ <;> rfl

theorem reduceAll_frames (fs : List Frame) (x : Expr) (ps : List Pending) (os : List Operand) :
    reduceAll (pendings fs ++ ps) (.ofExpr x :: (lefts fs ++ os)) =
      collapse fs x >>= fun y => reduceAll ps (.ofExpr y :: os) := by
  refine loop_frames (fun f _ ps os => ?_) x ps os
  rw [Frame.pending, reduceAll]
  rcases reduce f.op f.index os with _ | _ <;> rfl

end Reader

end DiceNotation
