/-
# Places in a schema dump

A place in a dump is found by naming one of its two maps, an entry of that map
and then a way down from the entry, step by step. A defect is what makes the
value at a place unreadable; its text is quoted behind the text of the place.

Key definitions: `Dump.Location`, `Dump.Location.text`, `Dump.Defect`.
Key theorems: `Dump.Location.text_entry`, `Dump.Location.text_down`.
-/
import ContentDecl.Json.Basic

namespace ContentDecl

/-- The two kinds of type definitions, which are kept apart. -/
inductive Section where
  | documents
  | nested
  deriving DecidableEq, Repr

namespace Dump

/-- The member of a dump that holds the definitions of a section. -/
def sectionKey : Section → String
  | .documents => "documentTypeDefMap"
  | .nested => "nestedTypeDefMap"

/-- One step down a dump. -/
inductive Step where
  | field (index : Nat)
  | computed (index : Nat)
  | shape
  | item
  | itemAt (index : Nat)
  deriving DecidableEq, Repr

/-- A member and, in an array, the index of an element. -/
def Step.text : Step → String
  | field index => "fieldDefs[" ++ toString index ++ "]"
  | computed index => "computedFields[" ++ toString index ++ "]"
  | shape => "typeDef"
  | item => "of"
  | itemAt index => "of[" ++ toString index ++ "]"

/-- A place in a dump. -/
structure Location where
  map : Section
  key : String
  steps : List Step
  deriving DecidableEq, Repr

namespace Location

/-- The entry of a map. -/
def entry (map : Section) (key : String) : Location := ⟨map, key, []⟩

/-- One step further down. -/
def down (place : Location) (step : Step) : Location :=
  { place with steps := place.steps ++ [step] }

/-- The names of all steps, joined by points. -/
def text (place : Location) : String :=
  sectionKey place.map ++ "." ++ place.key
    ++ String.join (place.steps.map fun step => "." ++ step.text)

theorem text_entry (map : Section) (key : String) :
    (entry map key).text = sectionKey map ++ "." ++ key := by
  simp [text, entry]

/-- A step down is written behind a point. -/
theorem text_down (place : Location) (step : Step) :
    (place.down step).text = place.text ++ "." ++ step.text := by
  simp [text, down, String.append_assoc]

end Location

/-- What is wrong with the value at a place. -/
inductive Defect where
  | noFieldType
  | unknownFieldType (type : Json)
  | unsupportedItemType (type : Json)
  | missing (key : String)
  | incompleteComputedField
  deriving Repr

def Defect.text : Defect → String
  | noFieldType => "field definition has no 'type'"
  | unknownFieldType type => "unknown field type '" ++ type.text ++ "'"
  | unsupportedItemType type => "unsupported list item type '" ++ type.text ++ "'"
  | missing key => "missing '" ++ key ++ "'"
  | incompleteComputedField => "computed field requires 'name' and 'type'"

end Dump
end ContentDecl
