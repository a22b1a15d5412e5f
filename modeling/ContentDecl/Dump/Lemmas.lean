/-
# The parts of an object are found by key

The readers of `Dump` search the members of an object from the first on, so
that each works on a part of the object it was given. What they find is the
member that a look-up finds: only the first member of a key counts, and the
others are never read.

Key theorems: `Dump.itemIn_eq`, `Dump.itemsIn_eq`, `Dump.shapeIn_eq`,
`Dump.fieldsIn_eq`.
-/
import ContentDecl.Dump.Basic

namespace ContentDecl
namespace Dump

/-- A look-up passes over a member of another name. -/
theorem lookup_cons_ne {key key' : String} (v : Json) (rest : List (String × Json))
    (h : key' ≠ key) : ((key', v) :: rest).lookup key = rest.lookup key := by
  have : (key == key') = false := by simpa using h.symm
  simp [List.lookup_cons, this]

/-- The item of a list field is the member `of`. -/
theorem itemIn_eq (place : Location) : ∀ members : List (String × Json),
    itemIn place members = match members.lookup "of" with
      | some raw => item (place.down .item) raw
      | none => .error (.defect place (.missing "of"))
  | [] => by simp [itemIn]
  | (key, raw) :: rest => by
    rw [itemIn, itemIn_eq place rest]
    by_cases h : key = "of"
    · subst h
      rw [List.lookup_cons_self]
      rfl
    · rw [lookup_cons_ne raw rest h, if_neg (by simpa using h)]

/-- The items of a list field with several kinds are the member `of`. -/
theorem itemsIn_eq (place : Location) : ∀ members : List (String × Json),
    itemsIn place members = match members.lookup "of" with
      | some (.arr raws) => itemsFrom place 0 raws
      | some raw => noObjects raw
      | none => .error (.defect place (.missing "of"))
  | [] => by simp [itemsIn]
  | (key, raw) :: rest => by
    by_cases h : key = "of"
    · subst h
      rw [List.lookup_cons_self]
      cases raw <;> simp [itemsIn]
    · rw [lookup_cons_ne raw rest h, ← itemsIn_eq place rest]
      cases raw <;> simp [itemsIn, h]

/-- The shape of a field or an item is the member `typeDef`. -/
theorem shapeIn_eq (place : Location) : ∀ members : List (String × Json),
    shapeIn place members = match members.lookup "typeDef" with
      | some (.obj type) => (.shape ∘ .group) <$> fieldsIn (place.down .shape) type
      | some _ => .error .missingAttribute
      | none => .error (.defect place (.missing "typeDef"))
  | [] => by simp [shapeIn]
  | (key, raw) :: rest => by
    by_cases h : key = "typeDef"
    · subst h
      rw [List.lookup_cons_self]
      cases raw <;> simp [shapeIn]
    · rw [lookup_cons_ne raw rest h, ← shapeIn_eq place rest]
      cases raw <;> simp [shapeIn, h]

/-- The fields of a type are the member `fieldDefs`. -/
theorem fieldsIn_eq (place : Location) : ∀ members : List (String × Json),
    fieldsIn place members = match members.lookup "fieldDefs" with
      | some (.arr raws) => fieldsFrom place 0 raws
      | some raw => if raw.isTrue then noObjects raw else .ok []
      | none => .ok []
  | [] => by simp [fieldsIn]
  | (key, raw) :: rest => by
    by_cases h : key = "fieldDefs"
    · subst h
      rw [List.lookup_cons_self]
      cases raw <;> simp [fieldsIn]
    · rw [lookup_cons_ne raw rest h, ← fieldsIn_eq place rest]
      cases raw <;> simp [fieldsIn, h]

end Dump
end ContentDecl
