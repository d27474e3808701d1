import DiceNotation.Number.Basic
import DiceNotation.Number.Remainder

/-!
# Arithmetic of numbers

Integers are computed with exactly. A result beyond 64 bits becomes a float: the float
operation applied to the floats nearest to the operands.
-/

namespace DiceNotation

/-- Why an arithmetic operation has no result. -/
inductive ArithmeticError where
  | divisionByZero
  | modulusByZero
  | zeroToNegativePower
  | factorialOfFraction (x : Float)
  | factorialOfNegative (n : Int64)
  | factorialTooLarge (n : Int64)

namespace Number

/-- The number for an exact result, if it fits into 64 bits. -/
def exactly? (z : Int) : Option Number := (int64? z).map .int

/-- Computes exactly on integers as long as the result fits, otherwise on floats. -/
def combine (exact : Int → Int → Int) (onFloats : Float → Float → Float) :
    Number → Number → Number
  | .int m, .int n =>
    (exactly? (exact m.toInt n.toInt)).getD (.float (onFloats (floatOfInt m) (floatOfInt n)))
  | a, b => .float (onFloats a.toFloat b.toFloat)

instance : Add Number := ⟨combine (· + ·) (· + ·)⟩

instance : Sub Number := ⟨combine (· - ·) (· - ·)⟩

instance : Mul Number := ⟨combine (· * ·) (· * ·)⟩

instance : Neg Number where
  neg
    | .int n => (exactly? (-n.toInt)).getD (.float (-floatOfInt n))
    | .float x => .float (-x)

/-- True division: the result is always a float. -/
def divide (a b : Number) : Except ArithmeticError Number :=
  if b == zero then .error .divisionByZero else .ok (.float (a.toFloat / b.toFloat))

/-! ## Moduli -/

/-- The remainder of a Euclidean division, which is never negative. There is none if the divisor
is zero or the quotient does not fit into 64 bits. -/
def euclideanRemainder? (m n : Int64) : Option Int64 :=
  if n = 0 then none
  else (int64? (m.toInt / n.toInt)).map fun _ => Int64.ofInt (m.toInt % n.toInt)

/-- The modulus of two integers: the Euclidean remainder, shifted to the side of a negative
divisor. A division without remainder is the only one whose quotient may not fit. -/
def integerModulus (m n : Int64) : Int64 :=
  match euclideanRemainder? m n with
  | some r => if r ≠ 0 ∧ n < 0 then r + n else r
  | none => 0

/-- Modulus with the sign of the divisor. -/
def modulo (a b : Number) : Except ArithmeticError Number :=
  if b == zero then .error .modulusByZero
  else .ok <|
    match a, b with
    | .int m, .int n => .int (integerModulus m n)
    | a, b => .float (flooredRemainder a.toFloat b.toFloat)

/-! ## Powers -/

/-- The exact power, unless its base and exponent are such that it cannot fit into 64 bits. The
powers of 1, 0 and -1 depend only on the parity of a positive exponent. -/
def exactPower? (base : Int) (exponent : Nat) : Option Int :=
  if base.natAbs ≤ 1 then some (Int.pow base (if exponent = 0 then 0 else 2 - exponent % 2))
  else if exponent < 64 then some (Int.pow base exponent)
  else none

/-- The power of two integers, the exponent not negative. Exponents of 32 bits are computed
with exactly. -/
def integerPower (base exponent : Int64) : Number :=
  let exact : Option Number :=
    if exponent.toInt < UInt32.size then
      (exactPower? base.toInt exponent.toInt.toNat).bind exactly?
    else none
  exact.getD (.float (Float.pow (floatOfInt base) (floatOfInt exponent)))

def power (a b : Number) : Except ArithmeticError Number :=
  if a == zero && b.lt zero then .error .zeroToNegativePower
  else .ok <|
    match a, b with
    | .int m, .int n =>
      if 0 ≤ n.toInt then integerPower m n else .float (Float.pow (floatOfInt m) (floatOfInt n))
    | a, b => .float (Float.pow a.toFloat b.toFloat)

/-! ## Factorials and sums -/

/-- The largest number whose factorial is finite as a float. -/
def maxFactorial : Int := 170

def factorial : Number → Except ArithmeticError Number
  | .float x => .error (.factorialOfFraction x)
  | .int n =>
    if n.toInt < 0 then .error (.factorialOfNegative n)
    else if maxFactorial < n.toInt then .error (.factorialTooLarge n)
    else .ok <| (List.range' 2 (n.toInt.toNat - 1)).foldl
      (fun product k => product * .int (Int64.ofNat k)) one

/-- Adds up from the left, beginning with the integer zero. -/
def sum (xs : List Number) : Number := xs.foldl (· + ·) zero

@[simp] theorem sum_nil : sum [] = zero := rfl

end Number

end DiceNotation
