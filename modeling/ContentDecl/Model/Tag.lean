/-
# Names of kinds

A dump names the kind of a field and of a list item by a word. There are
fifteen kinds of fields and six kinds of list items.

Key definitions: `FieldTag`, `ItemTag`, and for both `text` and `ofText?`.
-/

namespace ContentDecl

/-- The kinds of fields. -/
inductive FieldTag where
  | boolean
  | string
  | number
  | json
  | date
  | markdown
  | mdx
  | nested
  | nestedPolymorphic
  | nestedUnnamed
  | reference
  | referencePolymorphic
  | list
  | listPolymorphic
  | enum
  deriving DecidableEq, Repr

namespace FieldTag

def all : List FieldTag :=
  [boolean, string, number, json, date, markdown, mdx, nested, nestedPolymorphic, nestedUnnamed,
    reference, referencePolymorphic, list, listPolymorphic, enum]

/-- The word for a kind of field. -/
def text : FieldTag → String
  | boolean => "boolean"
  | string => "string"
  | number => "number"
  | json => "json"
  | date => "date"
  | markdown => "markdown"
  | mdx => "mdx"
  | nested => "nested"
  | nestedPolymorphic => "nested_polymorphic"
  | nestedUnnamed => "nested_unnamed"
  | reference => "reference"
  | referencePolymorphic => "reference_polymorphic"
  | list => "list"
  | listPolymorphic => "list_polymorphic"
  | enum => "enum"

/-- The kind of field a word names. -/
def ofText? (s : String) : Option FieldTag := all.find? fun tag => tag.text == s

theorem ofText?_text (tag : FieldTag) : ofText? tag.text = some tag := by
  cases tag <;> decide

end FieldTag

/-- The kinds of list items. -/
inductive ItemTag where
  | boolean
  | string
  | nested
  | enum
  | nestedUnnamed
  | reference
  deriving DecidableEq, Repr

namespace ItemTag

def all : List ItemTag := [boolean, string, nested, enum, nestedUnnamed, reference]

/-- The word for a kind of item. -/
def text : ItemTag → String
  | boolean => "boolean"
  | string => "string"
  | nested => "nested"
  | enum => "enum"
  | nestedUnnamed => "nested_unnamed"
  | reference => "reference"

/-- The kind of item a word names. -/
def ofText? (s : String) : Option ItemTag := all.find? fun tag => tag.text == s

theorem ofText?_text (tag : ItemTag) : ofText? tag.text = some tag := by
  cases tag <;> decide

end ItemTag
end ContentDecl
