import DiceNotation.Formula

/-!
# Reports

How a roll came about and what it added up to, as in `[d20: 20; (1)]+1 = 21`. Reports can be
summed with each other and with numbers.
-/

namespace DiceNotation

structure Report where
  breakdown : String
  total : Number

namespace Report

/-- A report of an empty formula has no text. -/
def text (r : Report) : String :=
  if r.breakdown.isEmpty then "" else r.breakdown ++ " = " ++ r.total.text

instance : ToString Report := ⟨text⟩

/-- A breakdown followed by another one; an empty one in front leaves no trace. -/
def joinBreakdowns (a b : String) : String := if a.isEmpty then b else a ++ "+" ++ b

instance : Add Report where
  add a b := ⟨joinBreakdowns a.breakdown b.breakdown, a.total + b.total⟩

/-- A number as a report of itself. -/
def ofNumber (x : Number) : Report := ⟨x.text, x⟩

end Report

/-- Evaluates a formula and reports on it. -/
def Formula.report {ρ : Type} [Roller ρ] (f : Formula) :
    StateM (Context ρ) (Except RollError Report × Formula) := do
  let (result, f) ← f.evaluate
  return (result.map fun total => ⟨f.breakdown, total⟩, f)

end DiceNotation
