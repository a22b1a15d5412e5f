/-
# The type that a field is meant to have

Every kind of field stands for one type or for a union of several: the nested
names of a polymorphic field, the options of an enumeration. A list is a list of
what its item stands for, a shape an object with one member for each field, and
a member that is not required may also be undefined. A member's description is
its comment.

A field is readable if the names in it are names of the grammar, no list that
becomes a union is empty, and no description ends a comment; options may be any
texts.

Key definitions: `readable`, `kindTypes`, `itemMeaning`, `shapeMembers`,
`fieldMeaning`.
-/
import ContentDecl.Proofs.Demand
import ContentDecl.Proofs.TypeExpr.Union
import ContentDecl.TypeScript.FieldType

namespace ContentDecl
namespace TypeScript

open TypeExpr (oneOf)

/-- What is asked of a field whose type expression can be read back. -/
def readable : Demand where
  head head := (∃ s, head.name = .str s ∧ IsName s) ∧
    (head.description = .null ∨ ∃ d, head.description = .str d ∧ IsComment d)
  typeName v := ∃ s, v = .str s ∧ IsName s
  typeNames v := ∃ names, v = listing names ∧ names ≠ [] ∧ ∀ s ∈ names, IsName s
  options v := ∃ options, v = listing options ∧ options ≠ []
  items nodes := nodes ≠ []

/-- The texts that a value lists. -/
def textsIn (v : Json) : List String := (v.elements?.getD []).map Json.text

/-- What stands in the comment of a member. -/
def commentOf? (description : Json) : Option String :=
  if description.isTrue then some (" " ++ description.text ++ " ") else none

/-- The types of which a member has one. -/
def memberTypes (head : Head) (ts : List TypeExpr) : List TypeExpr :=
  if head.isRequired.isTrue then ts else ts ++ [.name "undefined"]

mutual

/-- The types of which a field of a kind has one. -/
def kindTypes : FieldKind → List TypeExpr
  | .bare => []
  | .boolean => [.name "boolean"]
  | .string => [.name "string"]
  | .number => [.name "number"]
  | .json => [.name "any"]
  | .date => [.name "string"]
  | .markdown => [.name "Markdown"]
  | .mdx => [.name "MDX"]
  | .nested typeName => [.name typeName.text]
  | .nestedPolymorphic typeNames => (textsIn typeNames).map .name
  | .nestedUnnamed type => [shapeMeaning type]
  | .reference _ => [.name "string"]
  | .referencePolymorphic _ => [.name "string"]
  | .list item => [.list (itemMeaning item)]
  | .listPolymorphic items => [.list (oneOf (itemGroupMeanings items))]
  | .enum options => (textsIn options).map .literal

/-- The type of an item. -/
def itemMeaning : Node → TypeExpr
  | .item kind => itemKindMeaning kind
  | _ => .union []

def itemKindMeaning : ItemKind → TypeExpr
  | .boolean => .name "boolean"
  | .string => .name "string"
  | .nested typeName => .name typeName.text
  | .enum options => oneOf ((textsIn options).map .literal)
  | .nestedUnnamed type => shapeMeaning type
  | .reference _ => .name "string"

/-- The types of the items of a list. -/
def itemGroupMeanings : Node → List TypeExpr
  | .group items => itemMeanings items
  | _ => []

def itemMeanings : List Node → List TypeExpr
  | [] => []
  | node :: rest => itemMeaning node :: itemMeanings rest

/-- The type of a shape. -/
def shapeMeaning : Node → TypeExpr
  | .shape fields => .object (fieldGroupMembers fields)
  | _ => .object []

/-- The members that the fields of a list become. -/
def fieldGroupMembers : Node → List (Member TypeExpr)
  | .group fields => fieldMembers fields
  | _ => []

def fieldMembers : List Node → List (Member TypeExpr)
  | [] => []
  | node :: rest => fieldMember node :: fieldMembers rest

/-- The member that a field becomes. -/
def fieldMember : Node → Member TypeExpr
  | .field head kind =>
    ⟨commentOf? head.description, head.name.text, oneOf (memberTypes head (kindTypes kind))⟩
  | _ => ⟨none, "", .union []⟩

end

/-- The type of a field. -/
def fieldMeaning : Node → TypeExpr
  | .field _ kind => oneOf (kindTypes kind)
  | _ => .union []

end TypeScript
end ContentDecl
