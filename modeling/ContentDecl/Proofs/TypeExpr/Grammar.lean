/-
# The grammar of type expressions

A type expression is a union of one or more members between bars. A member is a
name, a literal between quotes, an expression in parentheses or an object type,
followed by any number of pairs of brackets, each of which makes a list of what
stands before it; so brackets bind tighter than bars. An object type has its
members on lines of their own: a name, a colon and a type expression, behind an
optional comment that ends where it can first end.

A name is any run of characters without one that the grammar gives a role, so
that every identifier is a name. Parentheses and a union of one member leave no
trace in the type.

Key definitions: `TypeExpr`, `IsName`, `IsComment`, `Primary`, `Postfix`,
`Alternatives`, `Line`, `Lines`, `TypeExpr.Spells`.
-/
import ContentDecl.Proofs.TypeExpr.Literal

namespace ContentDecl
namespace TypeScript

/-- A member of an object type: what stands in its comment, if it has one, its
name and its type. -/
structure Member (α : Type) where
  comment? : Option String
  name : String
  type : α

/-- A type. -/
inductive TypeExpr where
  | name (s : String)
  | literal (s : String)
  | list (element : TypeExpr)
  | union (types : List TypeExpr)
  | object (members : List (Member TypeExpr))

/-- The union of some types; of one type it is this type. -/
def TypeExpr.oneOf : List TypeExpr → TypeExpr
  | [t] => t
  | ts => .union ts

/-- The characters that end a name. -/
def delimiters : List Char :=
  [' ', '\n', '\x27', '(', ')', '[', ']', '\x7b', '\x7d', '|', ':', '/']

def isNameChar (c : Char) : Bool := !delimiters.contains c

/-- A text that stands for a name. -/
def IsName (s : String) : Prop := s.toList ≠ [] ∧ ∀ c ∈ s.toList, isNameChar c = true

/-- A text that can stand in a comment: the comment does not end inside it. -/
def IsComment (s : String) : Prop := ¬ ['*', '/'] <:+: s.toList

instance (s : String) : Decidable (IsName s) :=
  decidable_of_iff ((!s.toList.isEmpty && s.toList.all isNameChar) = true) (by simp [IsName])

instance (s : String) : Decidable (IsComment s) :=
  inferInstanceAs (Decidable (¬ ['*', '/'] <:+: s.toList))

/-- Some blanks. -/
def blanks (n : Nat) : List Char := List.replicate n ' '

open TypeExpr (oneOf)

mutual

/-- An expression without operators. -/
inductive Primary : List Char → TypeExpr → Prop
  | name {s} (h : IsName s) : Primary s.toList (.name s)
  | literal {cs} {s : String} (h : Escaped cs s.toList) :
    Primary ('\x27' :: (cs ++ ['\x27'])) (.literal s)
  | parenthesized {cs ts} (h : Alternatives cs ts) : Primary ('(' :: (cs ++ [')'])) (oneOf ts)
  | emptyObject : Primary ['\x7b', '\n', '\n', '\x7d'] (.object [])
  | object {cs ms} (h : Lines cs ms) :
    Primary ('\x7b' :: '\n' :: (cs ++ ['\n', '\x7d'])) (.object ms)

/-- A member of a union. -/
inductive Postfix : List Char → TypeExpr → Prop
  | primary {cs t} (h : Primary cs t) : Postfix cs t
  | list {cs t} (h : Postfix cs t) : Postfix (cs ++ ['[', ']']) (.list t)

/-- The members of a union between bars, in their order. -/
inductive Alternatives : List Char → List TypeExpr → Prop
  | one {cs t} (h : Postfix cs t) : Alternatives cs [t]
  | more {cs ds t ts} (h : Postfix cs t) (rest : Alternatives ds ts) :
    Alternatives (cs ++ ' ' :: '|' :: ' ' :: ds) (t :: ts)

/-- A member of an object type. -/
inductive Line : List Char → Member TypeExpr → Prop
  | plain {s cs ts} (n : Nat) (hs : IsName s) (h : Alternatives cs ts) :
    Line (blanks n ++ (s.toList ++ ':' :: ' ' :: cs)) ⟨none, s, oneOf ts⟩
  | commented {d s cs ts} (n m : Nat) (hd : IsComment d) (hs : IsName s) (h : Alternatives cs ts) :
    Line
      (blanks n ++ '/' :: '*' :: '*' :: (d.toList ++ '*' :: '/' :: '\n' ::
        (blanks m ++ (s.toList ++ ':' :: ' ' :: cs))))
      ⟨some d, s, oneOf ts⟩

/-- The members of an object type, one line after the other. -/
inductive Lines : List Char → List (Member TypeExpr) → Prop
  | one {cs m} (h : Line cs m) : Lines cs [m]
  | more {cs ds m ms} (h : Line cs m) (rest : Lines ds ms) : Lines (cs ++ '\n' :: ds) (m :: ms)

end

/-- The whole text spells the type. -/
def TypeExpr.Spells (text : String) (t : TypeExpr) : Prop :=
  ∃ ts, Alternatives text.toList ts ∧ t = oneOf ts

end TypeScript
end ContentDecl
