import DiceNotation.Expr.Basic

/-!
# Modes

A mode puts other dice operators in place of those of an expression before it is rolled. Nodes
with another operator at them or below them forget what they remembered.
-/

namespace DiceNotation

/-! ## Rewriting operators -/

namespace Expr

/-- Puts other operators in place of some, and tells whether any of them is a different one. -/
def rewrite (f : BinaryOperator → Option BinaryOperator) : Expr → Expr × Bool
  | literal m l => (literal m l, false)
  | sign m s x =>
    let (x, changed) := x.rewrite f
    (sign (if changed then none else m) s x, changed)
  | factorial m x =>
    let (x, changed) := x.rewrite f
    (factorial (if changed then none else m) x, changed)
  | binary m b x y =>
    let (x, left) := x.rewrite f
    let (y, right) := y.rewrite f
    match (f b).filter (· != b) with
    | some new => (binary none new x y, true)
    | none => (binary (if left || right then none else m) b x y, left || right)

/-- Turns `d` into `da`. -/
def averageify (e : Expr) : Expr :=
  (e.rewrite fun
    | .dice .plain => some (.dice .average)
    | _ => none).1

/-- Turns `d` and `da` into `dc`. -/
def critify (e : Expr) : Expr :=
  (e.rewrite fun
    | .dice .plain | .dice .average => some (.dice .critical)
    | _ => none).1

/-- Turns every dice operator into `dm`. -/
def maxify (e : Expr) : Expr :=
  (e.rewrite fun b => if (Operator.binary b).isDice then some (.dice .maximum) else none).1

end Expr

/-! ## Modes -/

/-- The kinds to turn dice operators into before rolling. -/
structure Mode where
  average : Bool
  critical : Bool
  maximum : Bool
deriving DecidableEq, Repr

namespace Mode

def normal : Mode := ⟨false, false, false⟩

def ofKind : DiceKind → Mode
  | .plain => normal
  | .average => ⟨true, false, false⟩
  | .critical => ⟨false, true, false⟩
  | .maximum => ⟨false, false, true⟩

instance : OrOp Mode where
  or a b := ⟨a.average || b.average, a.critical || b.critical, a.maximum || b.maximum⟩

/-- Whether a mode asks for everything that another one asks for. -/
def contains (a b : Mode) : Bool := (a ||| b) == a

def isNormal (m : Mode) : Bool := m == normal

/-- The kinds that a mode asks for, in the order in which it turns operators into them. -/
def kinds (m : Mode) : List DiceKind :=
  (if m.average then [.average] else []) ++ (if m.critical then [.critical] else []) ++
    (if m.maximum then [.maximum] else [])

def nameOf : DiceKind → String
  | .plain => "normal"
  | .average => "average"
  | .critical => "critical"
  | .maximum => "maximum"

/-- As in `average|maximum`. -/
def text (m : Mode) : String :=
  if m.isNormal then nameOf .plain else "|".intercalate (m.kinds.map nameOf)

instance : ToString Mode := ⟨text⟩

/-- The mode with a given name in letters of either case; unknown names are normal. No letter
beyond ASCII has a lower case that occurs in a name. -/
def ofName (s : String) : Mode :=
  match s.toLower with
  | "average" => ofKind .average
  | "critical" => ofKind .critical
  | "maximum" => ofKind .maximum
  | _ => normal

end Mode

/-- Rewrites the dice operators as a mode asks: to average, then critical, then maximum. -/
def Expr.applyMode (m : Mode) (e : Expr) : Expr :=
  let e := if m.contains (.ofKind .average) then e.averageify else e
  let e := if m.contains (.ofKind .critical) then e.critify else e
  if m.contains (.ofKind .maximum) then e.maxify else e

end DiceNotation
