import DiceNotation.Rollable

/-!
# Sessions

A session rolls the expressions of its arguments, or else the lines of its input, each of them
as often as its options ask for. What it writes is a list of pieces for the two output streams.
-/

namespace DiceNotation

/-! ## Options -/

structure Options where
  mode : Mode
  verbose : Bool
  times : Nat
  expressions : List String

/-- Why a session does not begin. -/
inductive OptionError where
  | exclusiveModes
  | countExpected (option : String)
  | helpRequested

namespace OptionError

def message : OptionError → String
  | exclusiveModes => "-a, -c and -m are mutually exclusive"
  | countExpected option => option ++ " expects a count"
  | helpRequested => "usage: repl [-a | -c | -m] [-v] [-n N] [EXPR...]"

end OptionError

namespace Options

def initial : Options := ⟨.normal, false, 1, []⟩

/-- Reads a count of 64 bits; it may have a plus sign, but no minus sign. -/
def count? (s : String) : Option Nat :=
  if s.startsWith "-" then none
  else (Decimal.integer? s.toList).bind fun n =>
    if n.toNat ≤ maxCount then some n.toNat else none

/-- Chooses a mode, once. -/
def withMode (options : Options) (kind : DiceKind) : Except OptionError Options :=
  if options.mode.isNormal then .ok { options with mode := .ofKind kind }
  else .error .exclusiveModes

/-- Reads the arguments that follow those that gave some options already. -/
def readFrom (options : Options) : List String → Except OptionError Options
  | [] => .ok options
  | arg :: args =>
    if arg = "-a" ∨ arg = "--average" then do (← options.withMode .average).readFrom args
    else if arg = "-c" ∨ arg = "--critical" then do (← options.withMode .critical).readFrom args
    else if arg = "-m" ∨ arg = "--maximum" then do (← options.withMode .maximum).readFrom args
    else if arg = "-v" ∨ arg = "--verbose" then { options with verbose := true }.readFrom args
    else if arg = "-n" ∨ arg = "--number" then
      match args with
      | [] => .error (.countExpected arg)
      | n :: args =>
        match count? n with
        | none => .error (.countExpected arg)
        | some times => { options with times }.readFrom args
    else if arg = "-h" ∨ arg = "--help" then .error .helpRequested
    else { options with expressions := options.expressions ++ [arg] }.readFrom args

def ofArguments (args : List String) : Except OptionError Options := initial.readFrom args

end Options

/-! ## What a session writes -/

/-- A piece of output for one of the two streams. -/
inductive Piece where
  | out (text : String)
  | err (text : String)
deriving DecidableEq, Repr

namespace Session

/-- What is written before a line is read. -/
def prompt : Piece := .out "> "

variable {ρ : Type} [Roller ρ]

/-- Rolls an expression once. -/
def roll (options : Options) (expression : List Char) : RollM ρ String :=
  if options.verbose then return (← (Rollable.text expression).report options.mode 0).text
  else return (← (Rollable.text expression).total options.mode 0).text

/-- Rolls an expression several times, up to the first failure. -/
def rollTimes (options : Options) (expression : List Char) :
    Nat → StateM (Context ρ) (List Piece)
  | 0 => return []
  | times + 1 => do
    match ← (roll options expression).run with
    | .error e => return [.err ("Error: " ++ e.message ++ "\n")]
    | .ok text => return .out (text ++ "\n") :: (← rollTimes options expression times)

/-- Answers an expression that was given as an argument. -/
def answer (options : Options) (expression : List Char) : StateM (Context ρ) (List Piece) :=
  rollTimes options expression options.times

/-- Answers a line of input and asks for the next one. Blank lines have no answer. -/
def answerLine (options : Options) (line : List Char) : StateM (Context ρ) (List Piece) := do
  let expression := Text.trim line
  let pieces ← if expression.isEmpty then pure [] else answer options expression
  return pieces ++ [prompt]

/-- The lines of a text; the last one need not be ended. -/
def lines (text : List Char) : List (List Char) :=
  let parts := text.splitOn '\n'
  if parts.getLast? = some [] then parts.dropLast else parts

/-- Rolls the expressions of the options, or the lines of the input if there are none. -/
def run (options : Options) (input : List Char) : StateM (Context ρ) (List Piece) := do
  if options.expressions.isEmpty then
    let answers ← (lines input).mapM (answerLine options)
    return prompt :: answers.flatten
  else
    let answers ← options.expressions.mapM fun e => answer options e.toList
    return answers.flatten

end Session

/-- What a finished session leaves behind. -/
structure Transcript where
  code : Nat
  out : String
  err : String
deriving DecidableEq, Repr

namespace Transcript

/-- Gathers the pieces of each stream. -/
def ofPieces (code : Nat) (pieces : List Piece) : Transcript :=
  ⟨code, String.join (pieces.map fun | .out s => s | .err _ => ""),
    String.join (pieces.map fun | .out _ => "" | .err s => s)⟩

/-- The transcript of a session with given arguments and input, in a given context. Options
that cannot be read end it with code 2. -/
def ofSession {ρ : Type} [Roller ρ] (args : List String) (input : List Char) (ctx : Context ρ) :
    Transcript :=
  match Options.ofArguments args with
  | .error e => ofPieces 2 [.err (e.message ++ "\n")]
  | .ok options => ofPieces 0 (Session.run options input ctx).1

end Transcript

end DiceNotation
