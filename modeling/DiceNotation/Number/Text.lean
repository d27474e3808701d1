import DiceNotation.Decimal.Layout
import DiceNotation.Decimal.Literal
import DiceNotation.Number.Basic

/-!
# The text of numbers

Integers are written in decimal, floats with the fewest digits that read back.
-/

namespace DiceNotation

/-- Floats are written positionally from `0.0001` up to, but not including, `1e16`. -/
def floatLayout : Decimal.Layout := ⟨-4, 15⟩

/-- The text of a float. The sign of NaN is not shown. -/
def floatText (x : Float) : String :=
  let mag := Binary64.magnitude x
  if Binary64.infinity < mag then "NaN"
  else
    let unsigned :=
      if mag = Binary64.infinity then "inf"
      else String.ofList (Decimal.text floatLayout (Decimal.shortest mag))
    if Binary64.isNegative x then "-" ++ unsigned else unsigned

namespace Number

def text : Number → String
  | .int n => toString n.toInt
  | .float x => floatText x

instance : ToString Number := ⟨text⟩

/-- The text of several numbers, as in `1, 2.5`. -/
def listText (xs : List Number) : String := ", ".intercalate (xs.map text)

/-- Reads a 64-bit integer with an optional sign. -/
def integer? (cs : List Char) : Option Int64 := (Decimal.integer? cs).bind int64?

/-- Reads a literal that is an integer, unless it has a point. -/
def literal? (cs : List Char) : Option Number :=
  if cs.contains '.' then (Decimal.float? cs).map .float else (integer? cs).map .int

end Number

end DiceNotation
