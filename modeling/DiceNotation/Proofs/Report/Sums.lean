import DiceNotation.Report

/-!
# Sums of reports

Breakdowns are joined by plus signs. An empty report leaves no trace in front of another one, but
behind one that is not empty it leaves its plus sign. So a sum shows the breakdowns of its reports
and one plus sign too many wherever an empty part was added behind a part that is not empty.

* `Addition.length_breakdown`: how long a sum is, however its reports are grouped.
* `breakdown_foldl_iff`: the sum from the left is the breakdowns that are not empty, joined by plus
  signs, if and only if the empty ones come first, and then every grouping gives the same.
-/

namespace DiceNotation.Report

/-- The breakdowns that are not empty. -/
def shown (rs : List Report) : List String := (rs.map breakdown).filter fun b => !b.isEmpty

/-- The breakdowns that are not empty, joined by plus signs. -/
def joined (rs : List Report) : String := "+".intercalate (shown rs)

/-- No report that is empty comes after one that is not. -/
def EmptyOnesFirst (rs : List Report) : Prop :=
  rs.Pairwise fun a b => b.breakdown = "" → a.breakdown = ""

theorem emptyOnesFirst_cons {r : Report} {rs : List Report} :
    EmptyOnesFirst (r :: rs) ↔
      (∀ s ∈ rs, s.breakdown = "" → r.breakdown = "") ∧ EmptyOnesFirst rs :=
  List.pairwise_cons

/-! ## Breakdowns of two reports -/

theorem breakdown_add_of_empty {a : Report} (h : a.breakdown = "") (b : Report) :
    (a + b).breakdown = b.breakdown := by
  change joinBreakdowns a.breakdown b.breakdown = b.breakdown
  rw [h]
  rfl

theorem breakdown_add {a : Report} (h : a.breakdown ≠ "") (b : Report) :
    (a + b).breakdown = a.breakdown ++ "+" ++ b.breakdown := by
  have hne : a.breakdown.isEmpty = false := by simpa using h
  change joinBreakdowns a.breakdown b.breakdown = _
  rw [joinBreakdowns, hne]
  rfl

theorem breakdown_add_eq_empty_iff {a b : Report} :
    (a + b).breakdown = "" ↔ a.breakdown = "" ∧ b.breakdown = "" := by
  by_cases h : a.breakdown = ""
  · rw [breakdown_add_of_empty h]
    exact ⟨fun hb => ⟨h, hb⟩, And.right⟩
  · rw [breakdown_add h]
    simp [h]

/-! ## Joined breakdowns -/

section Joined

variable {rs ss : List Report}

theorem shown_eq_nil_iff : shown rs = [] ↔ ∀ r ∈ rs, r.breakdown = "" := by
  simp [shown, List.filter_eq_nil_iff]

theorem shown_append (rs ss : List Report) : shown (rs ++ ss) = shown rs ++ shown ss := by
  rw [shown, List.map_append, List.filter_append]
  rfl

theorem joined_append_of_empty_left (h : ∀ r ∈ rs, r.breakdown = "") :
    joined (rs ++ ss) = joined ss := by
  rw [joined, joined, shown_append, shown_eq_nil_iff.mpr h, List.nil_append]

theorem joined_append_of_empty_right (h : ∀ r ∈ ss, r.breakdown = "") :
    joined (rs ++ ss) = joined rs := by
  rw [joined, joined, shown_append, shown_eq_nil_iff.mpr h, List.append_nil]

theorem joined_append (hr : ¬ ∀ r ∈ rs, r.breakdown = "") (hs : ¬ ∀ r ∈ ss, r.breakdown = "") :
    joined (rs ++ ss) = joined rs ++ "+" ++ joined ss := by
  rw [joined, joined, joined, shown_append,
    String.intercalate_append_of_ne_nil (mt shown_eq_nil_iff.mp hr) (mt shown_eq_nil_iff.mp hs)]

theorem joined_of_empty (h : ∀ r ∈ rs, r.breakdown = "") : joined rs = "" := by
  rw [joined, shown_eq_nil_iff.mpr h]
  rfl

theorem joined_singleton (r : Report) : joined [r] = r.breakdown := by
  by_cases h : r.breakdown = ""
  · rw [h]
    exact joined_of_empty fun s hs => by rw [List.mem_singleton.mp hs, h]
  · simp [joined, shown, h]

end Joined

/-! ## Groupings -/

/-- Reports added up in some grouping. -/
inductive Addition where
  | report (r : Report)
  | sum (a b : Addition)

namespace Addition

def value : Addition → Report
  | report r => r
  | sum a b => a.value + b.value

/-- The reports that are added up, from left to right. -/
def reports : Addition → List Report
  | report r => [r]
  | sum a b => a.reports ++ b.reports

/-- How often a part that is empty is added behind one that is not. -/
def surplus : Addition → Nat
  | report _ => 0
  | sum a b =>
    a.surplus + b.surplus + if b.value.breakdown = "" ∧ a.value.breakdown ≠ "" then 1 else 0

/-- Adds reports to a sum, one after the other. -/
def addAll (a : Addition) (rs : List Report) : Addition := rs.foldl (fun s r => sum s (report r)) a

theorem reports_ne_nil (a : Addition) : a.reports ≠ [] := by
  induction a with
  | report r => exact List.cons_ne_nil r []
  | sum a b iha _ => exact List.append_ne_nil_of_left_ne_nil iha b.reports

/-- A sum is empty if and only if all its reports are. -/
theorem breakdown_eq_empty_iff {a : Addition} :
    a.value.breakdown = "" ↔ ∀ r ∈ a.reports, r.breakdown = "" := by
  induction a with
  | report r => simp [value, reports]
  | sum a b iha ihb =>
    rw [value, breakdown_add_eq_empty_iff, iha, ihb, reports, List.forall_mem_append]

theorem joined_sum_of_empty_left {a b : Addition} (h : a.value.breakdown = "") :
    joined (sum a b).reports = joined b.reports :=
  joined_append_of_empty_left (breakdown_eq_empty_iff.mp h)

theorem joined_sum_of_empty_right {a b : Addition} (h : b.value.breakdown = "") :
    joined (sum a b).reports = joined a.reports :=
  joined_append_of_empty_right (breakdown_eq_empty_iff.mp h)

theorem joined_sum {a b : Addition} (ha : a.value.breakdown ≠ "") (hb : b.value.breakdown ≠ "") :
    joined (sum a b).reports = joined a.reports ++ "+" ++ joined b.reports :=
  joined_append (mt breakdown_eq_empty_iff.mpr ha) (mt breakdown_eq_empty_iff.mpr hb)

theorem surplus_sum_eq_zero_iff {a b : Addition} :
    (sum a b).surplus = 0 ↔
      a.surplus = 0 ∧ b.surplus = 0 ∧ (b.value.breakdown = "" → a.value.breakdown = "") := by
  rw [surplus, Nat.add_eq_zero_iff, Nat.add_eq_zero_iff, and_assoc]
  by_cases ha : a.value.breakdown = "" <;> simp [ha]

theorem surplus_of_empty {a : Addition} (h : a.value.breakdown = "") : a.surplus = 0 := by
  induction a with
  | report r => rfl
  | sum a b iha ihb =>
    obtain ⟨ha, hb⟩ := breakdown_add_eq_empty_iff.mp h
    exact surplus_sum_eq_zero_iff.mpr ⟨iha ha, ihb hb, fun _ => ha⟩

/-- A sum is as long as what it should show and its surplus plus signs together. -/
theorem length_breakdown (a : Addition) :
    a.value.breakdown.length = (joined a.reports).length + a.surplus := by
  induction a with
  | report r => rw [value, reports, joined_singleton, surplus, Nat.add_zero]
  | sum a b iha ihb =>
    by_cases ha : a.value.breakdown = ""
    · rw [value, breakdown_add_of_empty ha, ihb, joined_sum_of_empty_left ha, surplus,
        surplus_of_empty ha, if_neg fun hab => hab.2 ha]
      omega
    · rw [value, breakdown_add ha, String.length_append, String.length_append, iha, ihb, surplus]
      by_cases hb : b.value.breakdown = ""
      · have hempty : joined b.reports = "" := joined_of_empty (breakdown_eq_empty_iff.mp hb)
        rw [joined_sum_of_empty_right hb, hempty, surplus_of_empty hb, if_pos ⟨hb, ha⟩]
        change _ + 1 + (0 + 0) = _
        omega
      · rw [joined_sum ha hb, String.length_append, String.length_append,
          if_neg fun hab => hb hab.1]
        omega

theorem breakdown_of_surplus {a : Addition} (h : a.surplus = 0) :
    a.value.breakdown = joined a.reports := by
  induction a with
  | report r => exact (joined_singleton r).symm
  | sum a b iha ihb =>
    obtain ⟨hsa, hsb, hab⟩ := surplus_sum_eq_zero_iff.mp h
    by_cases ha : a.value.breakdown = ""
    · rw [value, breakdown_add_of_empty ha, ihb hsb, joined_sum_of_empty_left ha]
    · rw [value, breakdown_add ha, iha hsa, ihb hsb, joined_sum ha (mt hab ha)]

/-- Surplus plus signs are all that can be wrong with a sum. -/
theorem breakdown_eq_joined_iff {a : Addition} :
    a.value.breakdown = joined a.reports ↔ a.surplus = 0 := by
  refine ⟨fun h => ?_, breakdown_of_surplus⟩
  have hlength := length_breakdown a
  rw [h] at hlength
  omega

theorem surplus_of_emptyOnesFirst {a : Addition} (h : EmptyOnesFirst a.reports) :
    a.surplus = 0 := by
  induction a with
  | report r => rfl
  | sum a b iha ihb =>
    obtain ⟨ha, hb, hab⟩ := List.pairwise_append.mp h
    refine surplus_sum_eq_zero_iff.mpr ⟨iha ha, ihb hb, fun hempty => ?_⟩
    obtain ⟨s, hs⟩ := List.exists_mem_of_ne_nil _ b.reports_ne_nil
    have hsempty : s.breakdown = "" := breakdown_eq_empty_iff.mp hempty s hs
    exact breakdown_eq_empty_iff.mpr fun r hr => hab r hr s hs hsempty

/-! ## Sums from the left -/

theorem reports_addAll (a : Addition) (rs : List Report) :
    (a.addAll rs).reports = a.reports ++ rs := by
  induction rs generalizing a with
  | nil => exact (List.append_nil _).symm
  | cons r rs ih => exact (ih _).trans (List.append_assoc _ [r] rs)

theorem value_addAll (a : Addition) (rs : List Report) :
    (a.addAll rs).value = rs.foldl (· + ·) a.value := by
  induction rs generalizing a with
  | nil => rfl
  | cons r rs ih => exact ih _

/-- From the left, an empty report must not be added to a sum that is not empty. -/
theorem surplus_addAll_eq_zero_iff {a : Addition} {rs : List Report} :
    (a.addAll rs).surplus = 0 ↔
      a.surplus = 0 ∧ (∀ r ∈ rs, r.breakdown = "" → a.value.breakdown = "") ∧
        EmptyOnesFirst rs := by
  induction rs generalizing a with
  | nil => simp [addAll, EmptyOnesFirst]
  | cons r rs ih =>
    have hstep : (a.addAll (r :: rs)).surplus = ((sum a (report r)).addAll rs).surplus := rfl
    have hempty : (sum a (report r)).value.breakdown = "" ↔
        a.value.breakdown = "" ∧ r.breakdown = "" := breakdown_add_eq_empty_iff
    rw [hstep, ih, surplus_sum_eq_zero_iff, hempty, emptyOnesFirst_cons, List.forall_mem_cons]
    constructor
    · rintro ⟨⟨ha, _, hr⟩, hrs, hordered⟩
      exact ⟨ha, ⟨hr, fun s hs he => (hrs s hs he).1⟩, fun s hs he => (hrs s hs he).2, hordered⟩
    · rintro ⟨ha, ⟨hr, hrs⟩, hfirst, hordered⟩
      exact ⟨⟨ha, rfl, hr⟩, fun s hs he => ⟨hrs s hs he, hfirst s hs he⟩, hordered⟩

end Addition

/-- The sum from the left is the breakdowns that are not empty, joined by plus signs, if and only
if no report is empty behind one that is not. Then every grouping of the reports gives the same,
and in general a grouping does if and only if it adds no empty part behind one that is not empty. -/
theorem breakdown_foldl_iff (r : Report) (rs : List Report) :
    ((rs.foldl (· + ·) r).breakdown = joined (r :: rs) ↔ EmptyOnesFirst (r :: rs)) ∧
      ∀ a : Addition, a.reports = r :: rs →
        (a.value.breakdown = joined (r :: rs) ↔ a.surplus = 0) ∧
          (EmptyOnesFirst (r :: rs) → a.surplus = 0) := by
  constructor
  · have hfold : (rs.foldl (· + ·) r).breakdown = ((Addition.report r).addAll rs).value.breakdown :=
      congrArg breakdown (Addition.value_addAll (.report r) rs).symm
    have hreports : ((Addition.report r).addAll rs).reports = r :: rs :=
      Addition.reports_addAll (.report r) rs
    rw [hfold, ← hreports, Addition.breakdown_eq_joined_iff, Addition.surplus_addAll_eq_zero_iff,
      hreports, emptyOnesFirst_cons]
    exact ⟨And.right, fun h => ⟨rfl, h⟩⟩
  · intro a ha
    rw [← ha]
    exact ⟨Addition.breakdown_eq_joined_iff, Addition.surplus_of_emptyOnesFirst⟩

/-- An empty report in front of two others leaves no trace, however they are grouped. -/
theorem breakdown_foldl_iff_in_front :
    let none : Report := ⟨"", .int 0⟩
    let one : Report := ⟨"1", .int 1⟩
    let two : Report := ⟨"2", .int 2⟩
    let grouped : Addition := .sum (.report none) (.sum (.report one) (.report two))
    grouped.reports = [none, one, two] ∧ EmptyOnesFirst [none, one, two] ∧
      ([one, two].foldl (· + ·) none).breakdown = joined [none, one, two] ∧
      grouped.value.breakdown = joined [none, one, two] := by
  intro none one two grouped
  have hreports : grouped.reports = [none, one, two] := rfl
  have hordered : EmptyOnesFirst [none, one, two] := by
    rw [EmptyOnesFirst]
    decide
  obtain ⟨hfold, hgrouped⟩ := breakdown_foldl_iff none [one, two]
  obtain ⟨hsurplus, hzero⟩ := hgrouped grouped hreports
  exact ⟨hreports, hordered, hfold.mpr hordered, hsurplus.mpr (hzero hordered)⟩

/-- Behind a report an empty one is not neutral, and sums of three reports depend on how they are
grouped. -/
theorem add_empty_not_neutral :
    let one : Report := ⟨"1", .int 1⟩
    let none : Report := ⟨"", .int 0⟩
    let two : Report := ⟨"2", .int 2⟩
    (one + none).breakdown = "1+" ∧ joined [one, none] = "1" ∧
      (one + none + two).breakdown = "1++2" ∧ (one + (none + two)).breakdown = "1+2" := by
  decide

end DiceNotation.Report
