import DiceNotation.Text.GraphemeExtend
import DiceNotation.Text.Unprintable

/-!
# Quoted text

How an error message shows a piece of the input: between double quotes, with everything
that a reader could not tell apart written as an escape.
-/

namespace DiceNotation.Text

/-- The escape of a character by its code point, as in `\u{7f}`. -/
def codePointEscape (c : Char) : String :=
  "\\u\x7b" ++ String.ofList (Nat.toDigits 16 c.toNat) ++ "\x7d"

/-- The voicing marks of halfwidth kana: they attach to the letter before them, but stand in a
cell of their own. -/
def isHalfwidthVoicing (c : Char) : Bool :=
  c == '\uff9e' || c == '\uff9f'

/-- Whether a character cannot be told from its surroundings when it is shown as it is. -/
def isEscaped (c : Char) : Bool :=
  isUnprintable c || isGraphemeExtend c && !isHalfwidthVoicing c

/-- One character of a quoted text. -/
def quotedChar (c : Char) : String :=
  match c with
  | '"' => "\\\""
  | '\\' => "\\\\"
  | '\n' => "\\n"
  | '\r' => "\\r"
  | '\t' => "\\t"
  | '\x00' => "\\0"
  | _ => if isEscaped c then codePointEscape c else c.toString

/-- The text between double quotes, escaped character by character. -/
def quoted (cs : List Char) : String :=
  "\"" ++ String.join (cs.map quotedChar) ++ "\""

end DiceNotation.Text
