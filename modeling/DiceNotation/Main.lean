import DiceNotation.Session

/-!
# The command line

Rolls the expressions given as arguments, or the lines of standard input as they come.
-/

namespace DiceNotation.Main

/-- Writes pieces to the streams that they are for. -/
def write (pieces : List Piece) : IO Unit := do
  let out ← IO.getStdout
  for piece in pieces do
    match piece with
    | .out text => out.putStr text
    | .err text => IO.eprint text
  out.flush

/-- A seed from the random bytes of the system. -/
def seed : IO UInt64 := do
  let bytes ← IO.getRandomBytes 8
  return bytes.foldl (fun value byte => value * 256 + byte.toUInt64) 0

/-- Answers lines until the input ends. -/
partial def answerLines (options : Options) (ctx : Context Script) : IO Unit := do
  let line ← (← IO.getStdin).getLine
  unless line.isEmpty do
    let (pieces, ctx) := Session.answerLine options line.toList ctx
    write pieces
    answerLines options ctx

end DiceNotation.Main

open DiceNotation in
def main (args : List String) : IO UInt32 := do
  match Options.ofArguments args with
  | .error e =>
    Main.write [.err (e.message ++ "\n")]
    return 2
  | .ok options =>
    let ctx := Context.start (some defaultBudget) (Script.seeded (← Main.seed))
    if options.expressions.isEmpty then
      Main.write [Session.prompt]
      Main.answerLines options ctx
    else
      Main.write (Session.run options [] ctx).1
    return 0
