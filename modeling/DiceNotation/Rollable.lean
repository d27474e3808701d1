import DiceNotation.Report

/-!
# Rolling anything

What can be rolled is a text, tokens, a formula or a number. A roll is either answered by its
total alone or by a report.
-/

namespace DiceNotation

inductive Rollable where
  | text (cs : List Char)
  | tokens (ts : List Token)
  | formula (f : Formula)
  | number (x : Number)

namespace Rollable

/-- The formula to roll. A number is none. -/
def toFormula : Rollable → Except RollError Formula
  | text cs => (Formula.ofText cs).mapError .parse
  | tokens ts => (Formula.ofTokens ts).mapError .parse
  | formula f => .ok f
  | number x => .error (.notAnExpression x)

/-- The formula with a modifier above its root. -/
def compile (r : Rollable) (modifier : Int64) : Except RollError Formula :=
  r.toFormula.map (·.addModifier modifier)

variable {ρ : Type} [Roller ρ]

/-- Rolls in a mode and adds a modifier to the total. A number is its own total. -/
def total (r : Rollable) (mode : Mode) (modifier : Int64) : RollM ρ Number := do
  match r with
  | number x => return x + .int modifier
  | r =>
    let f ← r.toFormula
    let (result, _) ← ((f.applyMode mode).evaluate : StateM (Context ρ) _)
    return (← result) + .int modifier

/-- Rolls in a mode, with the modifier as a part of the formula, and reports. -/
def report (r : Rollable) (mode : Mode) (modifier : Int64) : RollM ρ Report := do
  let f ← r.compile modifier
  let (result, _) ← ((f.applyMode mode).report : StateM (Context ρ) _)
  result

end Rollable

/-- The tokens of a text; a modifier other than zero follows the text in parentheses. -/
def Token.ofTextWithModifier (cs : List Char) (modifier : Int64) :
    Except ParseError (List Token) := do
  let ts ← Token.ofText cs
  if modifier = 0 then return ts
  else
    let (a, amount) := Formula.modifierParts modifier
    return .opened :: ts ++ [.closed, .op (.binary (.arithmetic a)), .int amount]

end DiceNotation
