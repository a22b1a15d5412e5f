/-
# Reading values from text

The reader goes over the characters of a text from left to right and stops at
the first place where the text cannot go on. It works on the characters that
are left, so the place of a problem is what was left there; `Position.of` turns
that into an offset, a line and a column.

Blanks are the space, tab, line feed and carriage return. A repeated member
keeps the place of its first and the value of its last appearance. An escape by
number is a code unit of 16 bits; two units that form a surrogate pair are
joined, and at a lone one, which is no character, reading stops.

Key definitions: `Json.Problem`, `Json.joinUnits`, `Json.value`, `Json.decode`,
`Json.unifyLines`.
-/
import ContentDecl.Json.Basic

namespace ContentDecl
namespace Json

/-- Why a text cannot go on. -/
inductive Problem where
  | byteOrderMark
  | valueExpected
  | nameExpected
  | colonExpected
  | commaExpected
  | extraData
  | unterminatedText
  | controlCharacter
  | badEscape
  | badNumberedEscape
  deriving DecidableEq, Repr

namespace Problem

def message : Problem → String
  | byteOrderMark => "Unexpected UTF-8 BOM (decode using utf-8-sig)"
  | valueExpected => "Expecting value"
  | nameExpected => "Expecting property name enclosed in double quotes"
  | colonExpected => "Expecting ':' delimiter"
  | commaExpected => "Expecting ',' delimiter"
  | extraData => "Extra data"
  | unterminatedText => "Unterminated string starting at"
  | controlCharacter => "Invalid control character at"
  | badEscape => "Invalid \\escape"
  | badNumberedEscape => "Invalid \\uXXXX escape"

end Problem

/-- How reading stops: with a problem and the characters left there, at an
integer with more digits than are read, or at a text with a unit that is no
character. -/
inductive Stop where
  | problem (problem : Problem) (rest : List Char)
  | tooManyDigits
  | loneSurrogate
  deriving DecidableEq, Repr

/-- Integers with more digits are not read. -/
def digitLimit : Nat := 4300

def isBlank (c : Char) : Bool := c == ' ' || c == '\t' || c == '\n' || c == '\r'

def skipBlank (cs : List Char) : List Char := cs.dropWhile isBlank

/-! ## Texts -/

/-- The value of a hexadecimal digit, in either case. -/
def hexDigit? (c : Char) : Option Nat :=
  if c.isDigit then some (c.toNat - '0'.toNat)
  else if 'a' ≤ c && c ≤ 'f' then some (c.toNat - 'a'.toNat + 10)
  else if 'A' ≤ c && c ≤ 'F' then some (c.toNat - 'A'.toNat + 10)
  else none

def hexUnit? (a b c d : Char) : Option Nat := do
  let a ← hexDigit? a
  let b ← hexDigit? b
  let c ← hexDigit? c
  let d ← hexDigit? d
  return ((a * 16 + b) * 16 + c) * 16 + d

/-- The character after a backslash, but for an escape by number. -/
def escaped? : Char → Option Char
  | '\x22' => some '\x22'
  | '\\' => some '\\'
  | '/' => some '/'
  | 'b' => some '\x08'
  | 'f' => some '\x0c'
  | 'n' => some '\n'
  | 'r' => some '\r'
  | 't' => some '\t'
  | _ => none

/-- The units of a text up to its closing quote, and what follows it. A
character counts as one unit. `opening` is what was left at the opening
quote. -/
def units (opening : List Char) : List Char → Except Stop (List Nat × List Char)
  | [] => throw (.problem .unterminatedText opening)
  | '\x22' :: rest => return ([], rest)
  | ['\\'] => throw (.problem .unterminatedText opening)
  | '\\' :: 'u' :: a :: b :: c :: d :: next :: rest =>
    match hexUnit? a b c d with
    | none => throw (.problem .badNumberedEscape ('u' :: a :: b :: c :: d :: next :: rest))
    | some unit => do
      let (more, left) ← units opening (next :: rest)
      return (unit :: more, left)
  | '\\' :: 'u' :: rest => throw (.problem .badNumberedEscape ('u' :: rest))
  | '\\' :: c :: rest =>
    match escaped? c with
    | none => throw (.problem .badEscape ('\\' :: c :: rest))
    | some c => do
      let (more, left) ← units opening rest
      return (c.toNat :: more, left)
  | c :: rest =>
    if c.toNat ≤ 0x1F then throw (.problem .controlCharacter (c :: rest))
    else do
      let (more, left) ← units opening rest
      return (c.toNat :: more, left)

def isHighSurrogate (unit : Nat) : Bool := 0xD800 ≤ unit && unit ≤ 0xDBFF

def isLowSurrogate (unit : Nat) : Bool := 0xDC00 ≤ unit && unit ≤ 0xDFFF

/-- The character of a unit that is no half of a pair. -/
def unitChar? (unit : Nat) : Option Char :=
  if isHighSurrogate unit || isLowSurrogate unit then none else some (Char.ofNat unit)

/-- The characters of a text's units, with surrogate pairs joined. -/
def joinUnits : List Nat → Option (List Char)
  | [] => some []
  | [unit] => (unitChar? unit).map fun c => [c]
  | high :: low :: rest =>
    if isHighSurrogate high && isLowSurrogate low then
      (joinUnits rest).map (Char.ofNat (0x10000 + (high - 0xD800) * 0x400 + (low - 0xDC00)) :: ·)
    else do
      let c ← unitChar? high
      let cs ← joinUnits (low :: rest)
      return c :: cs

/-- A text; `opening` starts with its opening quote. -/
def string (opening : List Char) : Except Stop (String × List Char) := do
  let (found, rest) ← units opening (opening.drop 1)
  match joinUnits found with
  | some cs => return (String.ofList cs, rest)
  | none => throw .loneSurrogate

/-! ## Numbers -/

/-- The leading decimal digits and the rest. -/
def digits (cs : List Char) : List Char × List Char := cs.span Char.isDigit

def natOf (ds : List Char) : Nat := ds.foldl (fun n d => 10 * n + (d.toNat - '0'.toNat)) 0

/-- The digits before the point: a zero alone, or digits that do not start
with zero. -/
def wholePart : List Char → List Char × List Char
  | '0' :: rest => (['0'], rest)
  | cs => digits cs

/-- The digits after the point, if a point with a digit after it follows. -/
def fractionPart : List Char → Option (List Char × List Char)
  | '.' :: rest => if (digits rest).1.isEmpty then none else some (digits rest)
  | _ => none

/-- The sign and the digits of an exponent, if one follows. -/
def exponentPart : List Char → Option (Int × List Char)
  | e :: rest =>
    if e == 'e' || e == 'E' then
      let (negative, rest) := match rest with
        | '-' :: rest => (true, rest)
        | '+' :: rest => (false, rest)
        | rest => (false, rest)
      let (ds, rest) := digits rest
      if ds.isEmpty then none
      else some (if negative then -(natOf ds : Int) else natOf ds, rest)
    else none
  | [] => none

/-- A number, as long as it goes; `start` is what is left at its sign. -/
def number (start : List Char) : Except Stop (Json × List Char) :=
  let (negative, cs) := match start with
    | '-' :: rest => (true, rest)
    | cs => (false, cs)
  let (whole, rest) := wholePart cs
  if whole.isEmpty then throw (.problem .valueExpected start)
  else
    match fractionPart rest, exponentPart ((fractionPart rest).elim rest (·.2)) with
    | none, none =>
      if digitLimit < whole.length then throw .tooManyDigits
      else return (.int (if negative then -(natOf whole : Int) else natOf whole), rest)
    | fraction, exponent =>
      let decimals := fraction.elim [] (·.1)
      let afterFraction := fraction.elim rest (·.2)
      let scale := exponent.elim 0 (·.1)
      let value := Binary64.ofDecimal negative (natOf (whole ++ decimals)) (scale - decimals.length)
      return (.float value, exponent.elim afterFraction (·.2))

/-! ## Values -/

/-- An object with one more member. -/
def putMember (members : List (String × Json)) (name : String) (value : Json) :
    List (String × Json) :=
  if (members.lookup name).isSome then
    members.map fun entry => if entry.1 == name then (name, value) else entry
  else members ++ [(name, value)]

mutual

/-- A value, from its first character. The first argument bounds the steps
left; twice the length of the text is enough. -/
def value : Nat → List Char → Except Stop (Json × List Char)
  | 0, cs => throw (.problem .valueExpected cs)
  | steps + 1, cs =>
    match cs with
    | '\x22' :: _ => do
      let (s, rest) ← string cs
      return (.str s, rest)
    | '[' :: rest =>
      match skipBlank rest with
      | ']' :: rest => return (.arr [], rest)
      | rest => do
        let (vs, rest) ← elementsFrom steps rest
        return (.arr vs, rest)
    | '\x7b' :: rest =>
      match skipBlank rest with
      | '\x7d' :: rest => return (.obj [], rest)
      | rest => do
        let (ms, rest) ← membersFrom steps [] rest
        return (.obj ms, rest)
    | 'n' :: 'u' :: 'l' :: 'l' :: rest => return (.null, rest)
    | 't' :: 'r' :: 'u' :: 'e' :: rest => return (.bool true, rest)
    | 'f' :: 'a' :: 'l' :: 's' :: 'e' :: rest => return (.bool false, rest)
    | 'N' :: 'a' :: 'N' :: rest => return (.float .nan, rest)
    | 'I' :: 'n' :: 'f' :: 'i' :: 'n' :: 'i' :: 't' :: 'y' :: rest =>
      return (.float (.infinite false), rest)
    | '-' :: 'I' :: 'n' :: 'f' :: 'i' :: 'n' :: 'i' :: 't' :: 'y' :: rest =>
      return (.float (.infinite true), rest)
    | _ => number cs

/-- The elements of an array that has one, from the first on, past the closing
bracket. -/
def elementsFrom : Nat → List Char → Except Stop (List Json × List Char)
  | 0, cs => throw (.problem .valueExpected cs)
  | steps + 1, cs => do
    let (v, rest) ← value steps cs
    match skipBlank rest with
    | ']' :: rest => return ([v], rest)
    | ',' :: rest => do
      let (vs, rest) ← elementsFrom steps (skipBlank rest)
      return (v :: vs, rest)
    | rest => throw (.problem .commaExpected rest)

/-- The members of an object from the next on, added to those found so far,
past the closing brace. -/
def membersFrom : Nat → List (String × Json) → List Char →
    Except Stop (List (String × Json) × List Char)
  | 0, _, cs => throw (.problem .nameExpected cs)
  | steps + 1, found, cs =>
    match cs with
    | '\x22' :: _ => do
      let (name, rest) ← string cs
      match skipBlank rest with
      | ':' :: rest => do
        let (v, rest) ← value steps (skipBlank rest)
        let found := putMember found name v
        match skipBlank rest with
        | '\x7d' :: rest => return (found, rest)
        | ',' :: rest => membersFrom steps found (skipBlank rest)
        | rest => throw (.problem .commaExpected rest)
      | rest => throw (.problem .colonExpected rest)
    | _ => throw (.problem .nameExpected cs)

end

/-- A value that starts with a digit is a number. -/
theorem value_digit {steps : Nat} {d : Char} (hd : d.isDigit = true) (cs : List Char) :
    value (steps + 1) (d :: cs) = number (d :: cs) := by
  rw [value]
  all_goals
    rintro rest ⟨⟩
    cases hd

/-- So is one that starts with a minus and a digit. -/
theorem value_minus {steps : Nat} {d : Char} (hd : d.isDigit = true) (cs : List Char) :
    value (steps + 1) ('-' :: d :: cs) = number ('-' :: d :: cs) := by
  rw [value]
  all_goals rintro rest ⟨⟩ <;> cases hd

/-- A text that is one value between blanks. -/
def document (cs : List Char) : Except Stop Json :=
  if cs.head? = some '\uFEFF' then throw (.problem .byteOrderMark cs)
  else do
    let (v, rest) ← value (2 * cs.length + 2) (skipBlank cs)
    if (skipBlank rest).isEmpty then return v
    else throw (.problem .extraData (skipBlank rest))

/-! ## Places -/

/-- A place in a text: characters before it, line and column from one. -/
structure Position where
  offset : Nat
  line : Nat
  column : Nat
  deriving DecidableEq, Repr

/-- The place at which `rest` is left of the text. -/
def Position.of (cs rest : List Char) : Position :=
  let before := cs.take (cs.length - rest.length)
  { offset := before.length
    line := before.count '\n' + 1
    column := (before.reverse.takeWhile (· != '\n')).length + 1 }

/-- Why a text is no value. -/
inductive DecodeError where
  | malformed (problem : Problem) (position : Position)
  | tooManyDigits
  | loneSurrogate
  deriving DecidableEq, Repr

/-- The problem and its place. -/
def malformedMessage (problem : Problem) (position : Position) : String :=
  problem.message ++ ": line " ++ toString position.line ++ " column "
    ++ toString position.column ++ " (char " ++ toString position.offset ++ ")"

/-- The value a text spells. -/
def decode (cs : List Char) : Except DecodeError Json :=
  match document cs with
  | .ok v => .ok v
  | .error (.problem problem rest) => .error (.malformed problem (Position.of cs rest))
  | .error .tooManyDigits => .error .tooManyDigits
  | .error .loneSurrogate => .error .loneSurrogate

/-- Every line ends with a line feed, however it ended before. -/
def unifyLines : List Char → List Char
  | '\r' :: '\n' :: rest => '\n' :: unifyLines rest
  | '\r' :: rest => '\n' :: unifyLines rest
  | c :: rest => c :: unifyLines rest
  | [] => []

end Json
end ContentDecl
