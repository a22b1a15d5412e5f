/-
# Pieces of type expressions

The members of a union stand between bars, a literal between single quotes with
quotes and backslashes escaped by a backslash, and a comment is one line before
what it describes. A list of names or of options may be any value: a union
takes texts only, and a literal is made of a text only.

Key definitions: `union`, `literal`, `parenthesized`, `comment`, `unionOf`,
`unionOrNever`, `literalsOf`.
-/
import ContentDecl.Fault

namespace ContentDecl
namespace TypeScript

/-- The type of one of several types. -/
def union (types : List String) : String := String.intercalate " | " types

def parenthesized (type : String) : String := "(" ++ type ++ ")"

/-- A character inside a literal. -/
def escape (c : Char) : List Char :=
  if c == '\\' || c == '\x27' then ['\\', c] else [c]

/-- The type of one text. -/
def literal (s : String) : String :=
  String.ofList ('\x27' :: (s.toList.flatMap escape ++ ['\x27']))

/-- The type without values. -/
def never : String := "never"

/-- A comment of one line, if the description is there. -/
def comment (description : Json) (indent : String) : String :=
  if description.isTrue then indent ++ "/** " ++ description.text ++ " */\n" else ""

/-- The indentation of the members of a type. -/
def indent : String := "  "

/-- A value that has to be a text. -/
def asText (v : Json) : Except Fault String :=
  match v with
  | .str s => .ok s
  | _ => .error .typeMismatch

/-- The texts that a value consists of. -/
def textsOf (v : Json) : Except Fault (List String) :=
  match v.elements? with
  | some vs => vs.mapM asText
  | none => .error .typeMismatch

/-- The union of the types that a value lists. -/
def unionOf (v : Json) : Except Fault String := union <$> textsOf v

/-- The same, but of nothing it is the type without values. -/
def unionOrNever (v : Json) : Except Fault String :=
  if v.isTrue then unionOf v else .ok never

/-- The literal of a value, which has to be a text. -/
def literalOf (v : Json) : Except Fault String :=
  match v with
  | .str s => .ok (literal s)
  | _ => .error .missingAttribute

/-- The literals of the options that a value lists. -/
def literalsOf (v : Json) : Except Fault (List String) :=
  match v.elements? with
  | some vs => vs.mapM literalOf
  | none => .error .typeMismatch

end TypeScript
end ContentDecl
