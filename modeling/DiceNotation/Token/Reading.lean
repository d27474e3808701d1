import DiceNotation.Token.Lexeme
import DiceNotation.Token.ParseError

/-!
# The tokens of a text

Lexemes become tokens from left to right. The token before decides whether `+` and `-` are
signs, and whether `F` is a die; the first lexeme that is no token decides the error.
-/

namespace DiceNotation

/-- The number of bytes of a text. -/
def byteLength (cs : List Char) : Nat := (String.ofList cs).utf8ByteSize

namespace Lexeme

/-- A lexeme as a piece of the text in which it starts at `position`. -/
def excerpt (x : Lexeme) (position : Nat) : Excerpt :=
  ⟨position, position + byteLength x.text, x.text⟩

/-- The token that a lexeme stands for after `previous`; none for blanks. -/
def token (x : Lexeme) (position : Nat) (previous : Option Token) :
    Except ParseError (Option Token) :=
  let one (t : Token) : Except ParseError (Option Token) := .ok (some t)
  let signed (s : Sign) (a : Arithmetic) : Except ParseError (Option Token) :=
    one (.op (if Token.isSignPosition previous then .sign s else .binary (.arithmetic a)))
  match x with
  | blank _ => .ok none
  | digits cs =>
    match Number.integer? cs with
    | some n => one (.int n)
    | none => .error (.unrecognized (x.excerpt position))
  | faces inner =>
    match Faces.read? inner with
    | some f => one (.faces f)
    | none => .error (.invalidFaces (x.excerpt position))
  | unclosed _ => .error (.unclosedFaces (x.excerpt position))
  | fudge =>
    if previous.any Token.isDice then one (.faces .fudge)
    else .error (.misplacedFudge (x.excerpt position))
  | opened => one .opened
  | closed => one .closed
  | plus => signed .plus .plus
  | minus => signed .minus .minus
  | op o _ => one (.op o)
  | unknown _ => .error (.unrecognized (x.excerpt position))

end Lexeme

namespace Token

/-- The tokens of lexemes of which the first starts at `position`, after `previous`. -/
def ofLexemes (position : Nat) (previous : Option Token) :
    List Lexeme → Except ParseError (List Token)
  | [] => .ok []
  | x :: xs =>
    let after := position + byteLength x.text
    match x.token position previous with
    | .error e => .error e
    | .ok none => ofLexemes after previous xs
    | .ok (some t) => (ofLexemes after (some t) xs).map (t :: ·)

/-- Cuts a text into tokens. -/
def ofText (cs : List Char) : Except ParseError (List Token) :=
  ofLexemes 0 none (Lexeme.ofText cs)

/-- The tokens of a given text can be computed. -/
theorem ofText_eq_cut (cs : List Char) :
    ofText cs = ofLexemes 0 none (Lexeme.cut cs.length cs) := by
  rw [ofText, Lexeme.ofText_eq_cut (Nat.le_refl _)]

end Token

end DiceNotation
