import DiceNotation.Number.Arithmetic
import DiceNotation.Number.Text
import DiceNotation.Text.Blank

/-!
# Face lists

A die may have any numbers on its faces, as in `[1, 1, 6]`. The fudge die, written `F`, is
`[-1, 0, 1]`.
-/

namespace DiceNotation

/-- The faces of a die, at least one. -/
structure Faces where
  toList : List Number
  nonempty : toList ≠ []

namespace Faces

instance : BEq Faces := ⟨fun a b => a.toList == b.toList⟩

instance : Inhabited Faces := ⟨⟨[default], by simp⟩⟩

def ofList? (xs : List Number) : Option Faces :=
  if h : xs ≠ [] then some ⟨xs, h⟩ else none

def fudge : Faces := ⟨[.int (-1), .int 0, .int 1], by simp⟩

def isFudge (f : Faces) : Bool := f == fudge

def length (f : Faces) : Nat := f.toList.length

def first (f : Faces) : Number := f.toList.head f.nonempty

/-- The greatest face; of equal ones the first, and NaN gives way to nothing. -/
def max (f : Faces) : Number :=
  f.toList.foldl (fun best x => if best.lt x then x else best) f.first

def sum (f : Faces) : Number := Number.sum f.toList

/-- The arithmetic mean, always a float. -/
def mean (f : Faces) : Number := .float (f.sum.toFloat / Float.ofNat f.length)

/-- The face with a given number, counted from one. -/
def get (f : Faces) (k : Nat) : Number := f.toList.getD (k - 1) f.first

def text (f : Faces) : String := "[" ++ Number.listText f.toList ++ "]"

instance : ToString Faces := ⟨text⟩

/-- Reads what stands between the brackets of a face list: literals between commas, blanks
around them. -/
def read? (cs : List Char) : Option Faces :=
  ((cs.splitOn ',').mapM fun face => Number.literal? (Text.trim face)).bind ofList?

theorem length_pos (f : Faces) : 0 < f.length := List.length_pos_iff.mpr f.nonempty

theorem ofList?_toList (f : Faces) : ofList? f.toList = some f := by
  simp only [ofList?, f.nonempty, ne_eq, not_false_eq_true, ↓reduceDIte]

end Faces

end DiceNotation
