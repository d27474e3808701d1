/-!
# Numbers

A number is a 64-bit integer or a float. Two integers are compared exactly; as soon as a float
takes part, an integer stands for the float nearest to it, and NaN is comparable with nothing.
-/

namespace DiceNotation

/-- What an expression adds up to. -/
inductive Number where
  | int (n : Int64)
  | float (x : Float)

/-- The 64-bit integer that stands for `z`, if there is one. -/
def int64? (z : Int) : Option Int64 :=
  if Int64.minValue.toInt ≤ z ∧ z ≤ Int64.maxValue.toInt then some (Int64.ofInt z) else none

theorem int64?_eq_some_iff {z : Int} {n : Int64} : int64? z = some n ↔ z = n.toInt := by
  have hlo : Int64.minValue.toInt = -9223372036854775808 := by decide
  have hhi : Int64.maxValue.toInt = 9223372036854775807 := by decide
  have hn := n.minValue_le_toInt
  have hn' := n.toInt_le
  simp only [int64?, hlo, hhi]
  constructor
  · intro h
    split at h
    · next hz => rw [← Option.some.inj h, Int64.toInt_ofInt_of_le (by omega) (by omega)]
    · cases h
  · rintro rfl
    rw [if_pos (by omega), Int64.ofInt_toInt]

/-- The float nearest to an integer. -/
def floatOfInt (n : Int64) : Float :=
  if n < 0 then -(-n).toUInt64.toFloat else n.toUInt64.toFloat

namespace Number

instance : Inhabited Number := ⟨.int 0⟩

def zero : Number := .int 0

def one : Number := .int 1

def ofBool (b : Bool) : Number := if b then one else zero

/-- The integer, if it is stored as one: a whole float is no integer. -/
def toInt? : Number → Option Int64
  | .int n => some n
  | .float _ => none

def toFloat : Number → Float
  | .int n => floatOfInt n
  | .float x => x

/-! ## Comparison -/

/-- The order of two floats; none if one of them is NaN. Both zeros are equal. -/
def compareFloats? (x y : Float) : Option Ordering :=
  if x < y then some .lt else if y < x then some .gt else if x == y then some .eq else none

def compare? : Number → Number → Option Ordering
  | .int m, .int n => some (compare m.toInt n.toInt)
  | a, b => compareFloats? a.toFloat b.toFloat

def lt (a b : Number) : Bool := a.compare? b == some .lt

def le (a b : Number) : Bool := a.lt b || a.compare? b == some .eq

instance : BEq Number := ⟨fun a b => a.compare? b == some .eq⟩

/-- Everything but zero counts as true. -/
def isTruthy (a : Number) : Bool := !(a == zero)

/-! ## Simple facts -/

@[simp] theorem compare?_int (m n : Int64) :
    compare? (.int m) (.int n) = some (compare m.toInt n.toInt) := rfl

@[simp] theorem toInt?_int (n : Int64) : toInt? (.int n) = some n := rfl

@[simp] theorem toFloat_int (n : Int64) : toFloat (.int n) = floatOfInt n := rfl

theorem lt_int {m n : Int64} : lt (.int m) (.int n) = true ↔ m.toInt < n.toInt := by
  simp only [lt, compare?_int, beq_iff_eq, Option.some.injEq, Int.compare_eq_lt]

theorem beq_int {m n : Int64} : ((.int m : Number) == .int n) = true ↔ m = n := by
  change (compare? (.int m) (.int n) == some .eq) = true ↔ m = n
  simp only [compare?_int, beq_iff_eq, Option.some.injEq, Int.compare_eq_eq, Int64.toInt_inj]

end Number

end DiceNotation
