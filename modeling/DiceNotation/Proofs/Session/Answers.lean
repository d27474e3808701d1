import DiceNotation.Proofs.Rolling.Requests
import DiceNotation.Session

/-!
# Arguments and lines of input

A session answers the expressions of its arguments or the lines of its input. Either way one
context is passed from each expression to the next, through repetitions and failures alike, so that
the same is written for the same expressions, but for the prompts.

* `Options.readFrom_append`, `Options.readFrom_expressions`: arguments are read one after the other.
* `Rolls`, `Answers`: what the repetitions of an expression, and several expressions, write.
* `Transcript.ofSession_lines`: arguments and lines of input compared.
-/

namespace DiceNotation

/-! ## Reading arguments -/

namespace Options

/-- The arguments that are not expressions. -/
def names : List String :=
  ["-a", "--average", "-c", "--critical", "-m", "--maximum", "-v", "--verbose", "-n", "--number",
    "-h", "--help"]

theorem readFrom_append_of_bind {x : Except OptionError Options} {o' : Options}
    {args rest : List String} (h : x >>= (·.readFrom args) = .ok o')
    (ih : ∀ o : Options, o.readFrom args = .ok o' → o.readFrom (args ++ rest) = o'.readFrom rest) :
    x >>= (·.readFrom (args ++ rest)) = o'.readFrom rest := by
  cases x with
  | error c => cases h
  | ok o => exact ih o h

theorem readFrom_append {o o' : Options} {args : List String} (h : o.readFrom args = .ok o')
    (rest : List String) : o.readFrom (args ++ rest) = o'.readFrom rest := by
  induction o, args using readFrom.induct with
  | case1 o =>
    cases h
    rfl
  | case2 o arg args harg ih =>
    rw [readFrom.eq_def] at h ⊢
    simp only [List.cons_append, harg, if_true] at h ⊢
    exact readFrom_append_of_bind h ih
  | case3 o arg args h1 harg ih =>
    rw [readFrom.eq_def] at h ⊢
    simp only [List.cons_append, h1, harg, if_true, if_false] at h ⊢
    exact readFrom_append_of_bind h ih
  | case4 o arg args h1 h2 harg ih =>
    rw [readFrom.eq_def] at h ⊢
    simp only [List.cons_append, h1, h2, harg, if_true, if_false] at h ⊢
    exact readFrom_append_of_bind h ih
  | case5 o arg args h1 h2 h3 harg ih =>
    rw [readFrom.eq_def] at h ⊢
    simp only [List.cons_append, h1, h2, h3, harg, if_true, if_false] at h ⊢
    exact ih h
  | case6 o arg h1 h2 h3 h4 harg =>
    rw [readFrom.eq_def] at h
    simp only [h1, h2, h3, h4, harg, if_true, if_false, reduceCtorEq] at h
  | case7 o arg h1 h2 h3 h4 harg n args hcount =>
    rw [readFrom.eq_def] at h
    simp only [h1, h2, h3, h4, harg, hcount, if_true, if_false, reduceCtorEq] at h
  | case8 o arg h1 h2 h3 h4 harg n args times hcount ih =>
    rw [readFrom.eq_def] at h ⊢
    simp only [List.cons_append, h1, h2, h3, h4, harg, hcount, if_true, if_false] at h ⊢
    exact ih h
  | case9 o arg args h1 h2 h3 h4 h5 harg =>
    rw [readFrom.eq_def] at h
    simp only [h1, h2, h3, h4, h5, harg, if_true, if_false, reduceCtorEq] at h
  | case10 o arg args h1 h2 h3 h4 h5 h6 ih =>
    rw [readFrom.eq_def] at h ⊢
    simp only [List.cons_append, h1, h2, h3, h4, h5, h6, if_false] at h ⊢
    exact ih h

theorem readFrom_expressions (o : Options) {es : List String} (h : ∀ e ∈ es, e ∉ names) :
    o.readFrom es = .ok { o with expressions := o.expressions ++ es } := by
  induction es generalizing o with
  | nil => rw [readFrom, List.append_nil]
  | cons e es ih =>
    obtain ⟨he, hes⟩ := List.forall_mem_cons.mp h
    simp only [names, List.mem_cons, List.not_mem_nil, or_false, not_or] at he
    rw [readFrom.eq_def]
    simp only [he, or_self, if_false]
    rw [ih _ hes, List.append_assoc]
    rfl

end Options

/-! ## Expressions -/

/-- Whether a text is an expression both as an argument and as a line of input. -/
structure IsExpression (e : String) : Prop where
  nonempty : e ≠ ""
  single_line : '\n' ∉ e.toList
  trimmed : Text.trim e.toList = e.toList
  not_option : e ∉ Options.names

instance (e : String) : Decidable (IsExpression e) :=
  decidable_of_iff
    (e ≠ "" ∧ '\n' ∉ e.toList ∧ Text.trim e.toList = e.toList ∧ e ∉ Options.names)
    ⟨fun ⟨hne, hline, htrim, hname⟩ => ⟨hne, hline, htrim, hname⟩,
      fun h => ⟨h.nonempty, h.single_line, h.trimmed, h.not_option⟩⟩

/-- The text whose lines are some expressions; its last line is ended or not. -/
def Session.written (es : List String) (ended : Bool) : List Char :=
  ['\n'].intercalate (es.map String.toList) ++ if ended then ['\n'] else []

/-- An empty list at the end leaves a separator behind. -/
theorem intercalate_concat_nil {α : Type} (x : α) {xss : List (List α)} (h : xss ≠ []) :
    [x].intercalate (xss ++ [[]]) = [x].intercalate xss ++ [x] := by
  induction xss with
  | nil => exact absurd rfl h
  | cons xs xss ih =>
    cases xss with
    | nil =>
      rw [List.singleton_append, List.intercalate_cons_cons, List.intercalate_singleton,
        List.intercalate_singleton, List.append_nil]
    | cons ys xss =>
      rw [List.intercalate_cons_cons, List.append_assoc, ← ih (List.cons_ne_nil _ _)]
      exact List.intercalate_cons_cons

theorem Session.lines_written {es : List String} (hes : es ≠ []) (h : ∀ e ∈ es, IsExpression e)
    (ended : Bool) : lines (written es ended) = es.map String.toList := by
  have hne : es.map String.toList ≠ [] := mt List.map_eq_nil_iff.mp hes
  have hsingle : ∀ cs ∈ es.map String.toList, '\n' ∉ cs := by
    intro cs hcs
    obtain ⟨e, he, rfl⟩ := List.mem_map.mp hcs
    exact (h e he).single_line
  rw [written]
  cases ended with
  | true =>
    have hsplit : (['\n'].intercalate (es.map String.toList ++ [[]])).splitOn '\n' =
        es.map String.toList ++ [[]] := by
      refine List.splitOn_intercalate '\n' (fun cs hcs => ?_) (List.concat_ne_nil _ _)
      rcases List.mem_append.mp hcs with hcs | hcs
      · exact hsingle cs hcs
      · rw [List.mem_singleton.mp hcs]
        exact List.not_mem_nil
    rw [if_pos rfl, ← intercalate_concat_nil _ hne, lines, hsplit, if_pos List.getLast?_concat,
      List.dropLast_concat]
  | false =>
    have hlast : (es.map String.toList).getLast? ≠ some [] := by
      intro hlast
      obtain ⟨e, he, hnil⟩ := List.mem_map.mp (List.mem_of_getLast? hlast)
      exact (h e he).nonempty (String.toList_eq_nil_iff.mp hnil)
    rw [if_neg Bool.false_ne_true, List.append_nil, lines,
      List.splitOn_intercalate '\n' hsingle hne, if_neg hlast]

/-! ## What is written -/

variable {ρ : Type} [Roller ρ]

/-- What some repetitions of an expression write on the two streams: a text for each success, up
to the first failure. -/
inductive Rolls (o : Options) (e : List Char) :
    Nat → Context ρ → String → String → Context ρ → Prop where
  | done {ctx : Context ρ} : Rolls o e 0 ctx "" "" ctx
  | failed {times : Nat} {ctx last : Context ρ} {c : RollError} :
      (Session.roll o e).run.run ctx = (.error c, last) →
      Rolls o e (times + 1) ctx "" ("Error: " ++ c.message ++ "\n") last
  | rolled {times : Nat} {ctx mid last : Context ρ} {text out err : String} :
      (Session.roll o e).run.run ctx = (.ok text, mid) → Rolls o e times mid out err last →
      Rolls o e (times + 1) ctx (text ++ "\n" ++ out) err last

/-- What some expressions write on the two streams, each in the context that those before it have
left, whether they failed or not. -/
inductive Answers (o : Options) :
    List String → Context ρ → List (String × String) → Context ρ → Prop where
  | nil {ctx : Context ρ} : Answers o [] ctx [] ctx
  | cons {e : String} {es : List String} {ctx mid last : Context ρ} {out err : String}
      {answers : List (String × String)} :
      Rolls o e.toList o.times ctx out err mid → Answers o es mid answers last →
      Answers o (e :: es) ctx ((out, err) :: answers) last

namespace Transcript

theorem ofPieces_append {code : Nat} {xs ys : List Piece} {out err out' err' : String}
    (hxs : ofPieces code xs = ⟨code, out, err⟩) (hys : ofPieces code ys = ⟨code, out', err'⟩) :
    ofPieces code (xs ++ ys) = ⟨code, out ++ out', err ++ err'⟩ := by
  cases hxs
  cases hys
  simp only [ofPieces, List.map_append, String.join_append]

end Transcript

namespace Session

/-- The second of two computations goes on where the first one ends. -/
theorem run_bind_of {σ α β : Type} {x : StateM σ α} {f : α → StateM σ β} {s mid : σ} {a : α}
    (h : x.run s = (a, mid)) : (x >>= f).run s = (f a).run mid := by
  rw [StateT.run_bind, h]
  rfl

theorem rolls_rollTimes (o : Options) (e : List Char) (times : Nat) (ctx : Context ρ) :
    ∃ pieces out err last, (rollTimes o e times).run ctx = (pieces, last) ∧
      Transcript.ofPieces 0 pieces = ⟨0, out, err⟩ ∧ Rolls o e times ctx out err last := by
  induction times generalizing ctx with
  | zero => exact ⟨[], "", "", ctx, rfl, rfl, .done⟩
  | succ times ih =>
    obtain ⟨⟨outcome, mid⟩, hroll⟩ : ∃ first, (roll o e).run.run ctx = first := ⟨_, rfl⟩
    rw [rollTimes, run_bind_of hroll]
    cases outcome with
    | error c => exact ⟨_, _, _, mid, rfl, rfl, .failed hroll⟩
    | ok text =>
      obtain ⟨pieces, out, err, last, hrun, hpieces, hrolls⟩ := ih mid
      refine ⟨.out (text ++ "\n") :: pieces, _, err, last, ?_, ?_, .rolled hroll hrolls⟩
      · exact run_bind_of hrun
      · rw [← List.singleton_append]
        exact Transcript.ofPieces_append rfl hpieces

/-- An expression is answered without regard to the other ones. -/
theorem rollTimes_expressions (o : Options) (es : List String) (e : List Char) (times : Nat) :
    (rollTimes { o with expressions := es } e times : StateM (Context ρ) _) =
      rollTimes o e times := by
  induction times with
  | zero => rfl
  | succ times ih =>
    rw [rollTimes, rollTimes, ih]
    rfl

/-- What several expressions write, apart for each of them. -/
theorem answers_mapM (o : Options) (es : List String) (ctx : Context ρ) :
    ∃ pieces answers last,
      ((es.map String.toList).mapM (answer o)).run ctx = (pieces, last) ∧
      pieces.map (Transcript.ofPieces 0) = answers.map (fun a => ⟨0, a.1, a.2⟩) ∧
      Answers o es ctx answers last := by
  induction es generalizing ctx with
  | nil => exact ⟨[], [], ctx, rfl, rfl, .nil⟩
  | cons e es ih =>
    obtain ⟨first, out, err, mid, hfirst, hout, hrolls⟩ := rolls_rollTimes o e.toList o.times ctx
    obtain ⟨rest, answers, last, hrest, hanswers, hothers⟩ := ih mid
    refine ⟨first :: rest, (out, err) :: answers, last, ?_, ?_, .cons hrolls hothers⟩
    · rw [List.map_cons, List.mapM_cons, answer, run_bind_of hfirst, run_bind_of hrest]
      rfl
    · rw [List.map_cons, List.map_cons, hout, hanswers]

theorem answerLine_of_trim {line : List Char} (htrim : Text.trim line = line) (hne : line ≠ [])
    (o : Options) :
    (answerLine o line : StateM (Context ρ) _) = (· ++ [prompt]) <$> answer o line := by
  have hempty : line.isEmpty = false := List.isEmpty_eq_false_iff.mpr hne
  rw [answerLine, htrim]
  dsimp only
  rw [hempty, if_neg Bool.false_ne_true, map_eq_pure_bind]

/-- Lines that are expressions are answered as such, and a prompt follows each answer. -/
theorem mapM_answerLine {lines : List (List Char)} (o : Options)
    (h : ∀ line ∈ lines, Text.trim line = line ∧ line ≠ []) :
    (lines.mapM (answerLine o) : StateM (Context ρ) _) =
      List.map (· ++ [prompt]) <$> lines.mapM (answer o) := by
  induction lines with
  | nil => rfl
  | cons line lines ih =>
    obtain ⟨⟨htrim, hne⟩, hlines⟩ := List.forall_mem_cons.mp h
    rw [List.mapM_cons, List.mapM_cons, answerLine_of_trim htrim hne, ih hlines]
    simp only [bind_map_left, map_bind, map_pure, List.map_cons]

end Session

/-! ## The two sources compared -/

namespace Transcript

theorem ofPieces_flatten {pieces : List (List Piece)} {answers : List (String × String)}
    (h : pieces.map (ofPieces 0) = answers.map fun a => ⟨0, a.1, a.2⟩) :
    ofPieces 0 pieces.flatten =
      ⟨0, String.join (answers.map Prod.fst), String.join (answers.map Prod.snd)⟩ := by
  induction answers generalizing pieces with
  | nil =>
    rw [List.map_eq_nil_iff.mp h]
    rfl
  | cons a answers ih =>
    obtain ⟨first, rest, rfl, hfirst, hrest⟩ := List.map_eq_cons_iff.mp h
    rw [List.map_cons, List.map_cons, String.join_cons, String.join_cons, List.flatten_cons]
    exact ofPieces_append hfirst (ih hrest)

/-- With a prompt after each answer. -/
theorem map_ofPieces_prompt {pieces : List (List Piece)} {answers : List (String × String)}
    (h : pieces.map (ofPieces 0) = answers.map fun a => ⟨0, a.1, a.2⟩) :
    (pieces.map (· ++ [Session.prompt])).map (ofPieces 0) =
      (answers.map fun a => (a.1 ++ "> ", a.2)).map fun a => ⟨0, a.1, a.2⟩ := by
  induction answers generalizing pieces with
  | nil =>
    rw [List.map_eq_nil_iff.mp h]
    rfl
  | cons a answers ih =>
    obtain ⟨first, rest, rfl, hfirst, hrest⟩ := List.map_eq_cons_iff.mp h
    have hprompt : ofPieces 0 (first ++ [Session.prompt]) = ⟨0, a.1 ++ "> ", a.2 ++ ""⟩ :=
      ofPieces_append hfirst rfl
    rw [String.append_empty] at hprompt
    exact List.cons_eq_cons.mpr ⟨hprompt, ih hrest⟩

variable {o : Options} {es : List String} {ctx last : Context ρ} {pieces : List (List Piece)}
  {answers : List (String × String)}

theorem ofSession_of_arguments (hes : es ≠ [])
    (hrun : ((es.map String.toList).mapM (Session.answer o)).run ctx = (pieces, last))
    (hanswers : pieces.map (ofPieces 0) = answers.map fun a => ⟨0, a.1, a.2⟩) {args : List String}
    (hargs : Options.ofArguments args = .ok { o with expressions := es }) (input : List Char) :
    ofSession args input ctx =
      ⟨0, String.join (answers.map Prod.fst), String.join (answers.map Prod.snd)⟩ := by
  have hempty : es.isEmpty = false := List.isEmpty_eq_false_iff.mpr hes
  rw [List.mapM_map] at hrun
  have hsession : (Session.run { o with expressions := es } input).run ctx =
      (pieces.flatten, last) := by
    rw [Session.run, hempty, if_neg Bool.false_ne_true]
    simp only [Session.answer, Session.rollTimes_expressions]
    exact Session.run_bind_of hrun
  rw [ofSession, hargs, ← ofPieces_flatten hanswers]
  exact congrArg (fun result => ofPieces 0 result.1) hsession

theorem ofSession_of_lines (hnone : o.expressions = []) (hes : es ≠ [])
    (h : ∀ e ∈ es, IsExpression e)
    (hrun : ((es.map String.toList).mapM (Session.answer o)).run ctx = (pieces, last))
    (hanswers : pieces.map (ofPieces 0) = answers.map fun a => ⟨0, a.1, a.2⟩) {opts : List String}
    (hopts : Options.ofArguments opts = .ok o) (ended : Bool) :
    ofSession opts (Session.written es ended) ctx =
      ⟨0, "> " ++ String.join (answers.map fun a => a.1 ++ "> "),
        String.join (answers.map Prod.snd)⟩ := by
  have hlines : ∀ line ∈ es.map String.toList, Text.trim line = line ∧ line ≠ [] := by
    intro line hline
    obtain ⟨e, he, rfl⟩ := List.mem_map.mp hline
    exact ⟨(h e he).trimmed, mt String.toList_eq_nil_iff.mp (h e he).nonempty⟩
  have hsession : (Session.run o (Session.written es ended)).run ctx =
      (Session.prompt :: (pieces.map (· ++ [Session.prompt])).flatten, last) := by
    rw [Session.run, hnone, if_pos List.isEmpty_nil, Session.lines_written hes h,
      Session.mapM_answerLine o hlines, bind_map_left]
    exact Session.run_bind_of hrun
  have hout := ofPieces_flatten (map_ofPieces_prompt hanswers)
  rw [List.map_map, List.map_map] at hout
  rw [ofSession, hopts]
  calc ofPieces 0 (Session.run o (Session.written es ended) ctx).1
      = ofPieces 0 ([Session.prompt] ++ (pieces.map (· ++ [Session.prompt])).flatten) :=
        congrArg (fun result => ofPieces 0 result.1) hsession
    _ = _ := ofPieces_append rfl hout

end Transcript

end DiceNotation
