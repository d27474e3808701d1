import DiceNotation.Decimal.Shortest

/-!
# Decimal literals

Integers `[sign] digits`, and decimals `[sign] digits [. digits] [e [sign] digits]` in which
one side of the point may be empty. Only ASCII digits count.
-/

namespace DiceNotation.Decimal

/-- The value of a run of digits. -/
def ofDigits (cs : List Char) : Nat :=
  cs.foldl (fun value c => 10 * value + (c.toNat - '0'.toNat)) 0

/-- Splits off a sign; `true` is minus. -/
def splitSign : List Char → Bool × List Char
  | '-' :: cs => (true, cs)
  | '+' :: cs => (false, cs)
  | cs => (false, cs)

/-- Reads `[sign] digits`. -/
def integer? (cs : List Char) : Option Int :=
  let (negative, digits) := splitSign cs
  if digits.isEmpty || !digits.all Char.isDigit then none
  else some (if negative then -(ofDigits digits : Int) else ofDigits digits)

/-- Reads what follows the digits of a decimal: nothing, or `e` and an integer. -/
def exponent? : List Char → Option Int
  | [] => some 0
  | c :: cs => if c == 'e' || c == 'E' then integer? cs else none

/-- Reads a decimal literal as the float nearest to it. -/
def float? (cs : List Char) : Option Float :=
  let (negative, cs) := splitSign cs
  let (whole, rest) := cs.span Char.isDigit
  let (fraction, rest) :=
    match rest with
    | '.' :: rest => rest.span Char.isDigit
    | _ => ([], rest)
  if whole.isEmpty && fraction.isEmpty then none
  else (exponent? rest).map fun e =>
    Binary64.ofMagnitude negative
      (magnitude ⟨ofDigits (whole ++ fraction), e - fraction.length⟩)

end DiceNotation.Decimal
