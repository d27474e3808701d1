import DiceNotation.Decimal.Shortest

/-!
# Written decimals

The text of a decimal with a point: positional in a window of magnitudes, otherwise with one
digit before the point and a power of ten after an `e`.
-/

namespace DiceNotation.Decimal

/-- The window of decimal exponents that are written positionally, both ends included. -/
structure Layout where
  least : Int
  greatest : Int

/-- Digits with a point after the first `whole` of them; `0` stands for an empty side. -/
def pointed (whole : Nat) (digits : List Char) : List Char :=
  let side (cs : List Char) : List Char := if cs.isEmpty then ['0'] else cs
  side (digits.take whole) ++ '.' :: side (digits.drop whole)

/-- The decimal in positional notation, with at least one digit on both sides of the point. -/
def positional (d : Decimal) : List Char :=
  let digits := Nat.toDigits 10 d.digits
  if 0 ≤ d.exponent then
    pointed (digits.length + d.exponent.toNat) (digits ++ List.replicate d.exponent.toNat '0')
  else
    let places := (-d.exponent).toNat
    let padded := List.replicate (places - digits.length) '0' ++ digits
    pointed (padded.length - places) padded

/-- The decimal with one digit before the point and its power of ten; no point after a lone
digit. -/
def scientific (d : Decimal) : List Char :=
  let digits := Nat.toDigits 10 d.digits
  let point := if digits.length ≤ 1 then digits else digits.take 1 ++ '.' :: digits.drop 1
  point ++ 'e' :: (toString (d.exponent + digits.length - 1)).toList

/-- The exponent of the leading digit decides between the two notations. -/
def text (layout : Layout) (d : Decimal) : List Char :=
  let leading := d.exponent + (Nat.toDigits 10 d.digits).length - 1
  if layout.least ≤ leading ∧ leading ≤ layout.greatest then d.positional else d.scientific

end DiceNotation.Decimal
