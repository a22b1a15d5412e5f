/-
# The form of a dump

A dump can be read exactly if it is of the following form. It is an object; each
of its two maps is absent, false, or an object of type definitions, which are
objects whose name, if they have one, can be a key. The fields of a definition
are absent, false, or an array of fields, and so are the computed fields of a
document type, which are objects with a name and a type. A field is an object
whose type is the word for a kind and which has the part that this kind needs;
an item likewise. A part with elements is an array, an object or a text; several
items are an array of items, or an object or a text without elements.

The two directions go by what an object holds: the form says of the inner
definitions what reading does with them.

Key definitions: `HasPart`, `FieldForm`, `ItemForm`, `FieldsForm`,
`DefinitionForm`, `DumpForm`.
Key theorems: `field_item_ok_iff`, `schema_ok_iff`.
-/
import ContentDecl.Proofs.Dump.Inside
import ContentDecl.Proofs.Dump.Part

namespace ContentDecl

theorem FieldTag.text_of_ofText? {word : String} {tag : FieldTag}
    (h : FieldTag.ofText? word = some tag) : tag.text = word := by
  simpa using List.find?_some h

theorem ItemTag.text_of_ofText? {word : String} {tag : ItemTag}
    (h : ItemTag.ofText? word = some tag) : tag.text = word := by
  simpa using List.find?_some h

namespace Dump

open Result

/-- A value that has elements, even if it has none. -/
inductive HasElements : Json → Prop
  | arr (vs : List Json) : HasElements (.arr vs)
  | obj (members : List (String × Json)) : HasElements (.obj members)
  | str (s : String) : HasElements (.str s)

mutual

/-- The members of an object hold the part. -/
inductive HasPart : List (String × Json) → Part → Prop
  | nothing {members} : HasPart members .nothing
  | value {members key v} (h : members.lookup key = some v) : HasPart members (.value key)
  | elements {members key v} (h : members.lookup key = some v) (hv : HasElements v) :
    HasPart members (.elements key)
  | shape {members type} (h : members.lookup "typeDef" = some (.obj type))
    (ht : FieldsForm type) : HasPart members .shape
  | item {members raw} (h : members.lookup "of" = some raw) (hi : ItemForm raw) :
    HasPart members .item
  | items {members raws} (h : members.lookup "of" = some (.arr raws))
    (hi : ∀ raw ∈ raws, ItemForm raw) : HasPart members .items
  | noItems {members v} (h : members.lookup "of" = some v) (hv : v = .str "" ∨ v = .obj []) :
    HasPart members .items

/-- A field: an object of one of the kinds, with the part that its kind needs. -/
inductive FieldForm : Json → Prop
  | mk {members} (tag : FieldTag) (ht : members.lookup "type" = some (.str tag.text))
    (hp : HasPart members tag.part) : FieldForm (.obj members)

/-- An item: an object of one of the kinds, with the part that its kind needs. -/
inductive ItemForm : Json → Prop
  | mk {members} (tag : ItemTag) (ht : members.lookup "type" = some (.str tag.text))
    (hp : HasPart members tag.part) : ItemForm (.obj members)

/-- The fields of a type: absent, false or an array of fields. -/
inductive FieldsForm : List (String × Json) → Prop
  | absent {members} (h : members.lookup "fieldDefs" = none) : FieldsForm members
  | falsy {members v} (h : members.lookup "fieldDefs" = some v) (hv : v.isTrue = false) :
    FieldsForm members
  | array {members raws} (h : members.lookup "fieldDefs" = some (.arr raws))
    (hf : ∀ raw ∈ raws, FieldForm raw) : FieldsForm members

end

/-- A member is absent, false or as asked. -/
def AbsentOr (member? : Option Json) (p : Json → Prop) : Prop :=
  ∀ v, member? = some v → v.isTrue = false ∨ p v

/-- A computed field: an object with a name and a type. -/
def ComputedForm (raw : Json) : Prop :=
  ∃ members name type, raw = .obj members ∧ members.lookup "name" = some name ∧
    members.lookup "type" = some type

/-- The members of a type definition of a section. -/
structure DefinitionForm (part : Section) (members : List (String × Json)) : Prop where
  name : ∀ v, members.lookup "name" = some v → v.isKey = true
  fields : FieldsForm members
  computed : part = .documents → AbsentOr (members.lookup "computedFields") fun v =>
    ∃ raws, v = .arr raws ∧ ∀ raw ∈ raws, ComputedForm raw

/-- A map of type definitions of a section. -/
def MapForm (part : Section) (v : Json) : Prop :=
  ∃ entries, v = .obj entries ∧ ∀ key raw, (key, raw) ∈ entries →
    ∃ members, raw = .obj members ∧ DefinitionForm part members

/-- A dump that can be read. -/
def DumpForm (data : Json) : Prop :=
  ∃ members, data = .obj members ∧
    ∀ part, AbsentOr (members.lookup (sectionKey part)) (MapForm part)

/-! ### What the forms say of the member they look at -/

section Inversion

variable {members : List (String × Json)} {v : Json}

theorem fieldsForm_iff (h : members.lookup "fieldDefs" = some v) :
    FieldsForm members ↔ v.isTrue = false ∨ ∃ raws, v = .arr raws ∧ ∀ raw ∈ raws, FieldForm raw := by
  constructor
  · intro hform
    rcases hform with h' | ⟨h', hv⟩ | ⟨h', hf⟩
    · simp [h] at h'
    · obtain rfl := Option.some.inj (h.symm.trans h')
      exact .inl hv
    · obtain rfl := Option.some.inj (h.symm.trans h')
      exact .inr ⟨_, rfl, hf⟩
  · intro hform
    rcases hform with hv | ⟨raws, rfl, hf⟩
    · exact .falsy h hv
    · exact .array h hf

theorem hasPart_shape_iff (h : members.lookup "typeDef" = some v) :
    HasPart members .shape ↔ ∃ type, v = .obj type ∧ FieldsForm type := by
  constructor
  · intro hform
    rcases hform with _ | _ | _ | ⟨h', ht⟩
    exact ⟨_, Option.some.inj (h.symm.trans h'), ht⟩
  · intro hform
    obtain ⟨type, rfl, ht⟩ := hform
    exact .shape h ht

theorem hasPart_item_iff (h : members.lookup "of" = some v) :
    HasPart members .item ↔ ItemForm v := by
  constructor
  · intro hform
    rcases hform with _ | _ | _ | _ | ⟨h', hi⟩
    exact Option.some.inj (h.symm.trans h') ▸ hi
  · exact .item h

theorem hasPart_items_iff (h : members.lookup "of" = some v) :
    HasPart members .items ↔
      (∃ raws, v = .arr raws ∧ ∀ raw ∈ raws, ItemForm raw) ∨ v = .str "" ∨ v = .obj [] := by
  constructor
  · intro hform
    rcases hform with _ | _ | _ | _ | _ | ⟨h', hi⟩ | ⟨h', hv⟩
    · exact .inl ⟨_, Option.some.inj (h.symm.trans h'), hi⟩
    · exact .inr (Option.some.inj (h.symm.trans h') ▸ hv)
  · intro hform
    rcases hform with ⟨raws, rfl, hi⟩ | hv
    · exact .items h hi
    · exact .noItems h hv

end Inversion

/-! ### Kinds -/

/-- The kind of a field is the word under `type`. -/
theorem fieldTag_eq_ok {place : Location} {members : List (String × Json)} {tag : FieldTag} :
    fieldTag place members = .ok tag ↔ members.lookup "type" = some (.str tag.text) := by
  unfold fieldTag Json.member
  constructor
  · intro h
    cases hv : members.lookup "type" with
    | none => simp [hv] at h
    | some v =>
      cases v with
      | str word =>
        cases hw : FieldTag.ofText? word with
        | none => simp [hv, hw] at h
        | some found =>
          simp only [hv, hw, Option.getD_some, Except.ok.injEq] at h
          rw [← h, FieldTag.text_of_ofText? hw]
      | _ => simp [hv, Json.isKey] at h
  · intro h
    simp [h, FieldTag.ofText?_text]

/-- The kind of an item is the word under `type`. -/
theorem itemTag_eq_ok {place : Location} {members : List (String × Json)} {tag : ItemTag} :
    itemTag place members = .ok tag ↔ members.lookup "type" = some (.str tag.text) := by
  unfold itemTag Json.member
  constructor
  · intro h
    cases hv : members.lookup "type" with
    | none => simp [hv] at h
    | some v =>
      cases v with
      | str word =>
        cases hw : ItemTag.ofText? word with
        | none => simp [hv, hw] at h
        | some found =>
          simp only [hv, hw, Option.getD_some, Except.ok.injEq] at h
          rw [← h, ItemTag.text_of_ofText? hw]
      | _ => simp [hv] at h
  · intro h
    simp [h, ItemTag.ofText?_text]

/-! ### Parts -/

theorem require_ok_iff {place : Location} {members : List (String × Json)} {key : String} {v : Json} :
    require place members key = .ok v ↔ members.lookup key = some v := by
  unfold require
  cases members.lookup key with
  | none => simp
  | some w => simp

theorem listOf_ok_iff {v : Json} : (∃ w, listOf v = .ok w) ↔ HasElements v := by
  unfold listOf
  cases v with
  | arr vs => simpa [Json.elements?] using HasElements.arr vs
  | obj members => simpa [Json.elements?] using HasElements.obj members
  | str s => simpa [Json.elements?] using HasElements.str s
  | _ => simp [Json.elements?]; rintro ⟨⟩

/-- Only a value without elements gives no objects. -/
theorem noObjects_ok_iff {v : Json} (hv : ∀ vs, v ≠ .arr vs) :
    (∃ nodes, noObjects v = .ok nodes) ↔ v = .str "" ∨ v = .obj [] := by
  unfold noObjects
  cases v with
  | arr vs => exact absurd rfl (hv vs)
  | str s =>
    cases hs : s.toList with
    | nil => simpa [Json.elements?, hs] using String.toList_eq_nil_iff.mp hs
    | cons c cs =>
      have hne : s ≠ "" := fun h => by simp [h] at hs
      simp [Json.elements?, hs, hne]
  | obj members => cases members <;> simp [Json.elements?]
  | _ => simp [Json.elements?]

/-- A value without elements counts as absent. -/
theorem isTrue_of_noObjects {v : Json} (h : v = .str "" ∨ v = .obj []) : v.isTrue = false := by
  rcases h with rfl | rfl <;> rfl

section Parts

variable {members : List (String × Json)}

theorem fieldsIn_ok_iff
    (ih : ∀ raw : Json, sizeOf raw < sizeOf members → ∀ place,
      (∃ node, field place raw = .ok node) ↔ FieldForm raw) (place : Location) :
    (∃ nodes, fieldsIn place members = .ok nodes) ↔ FieldsForm members := by
  obtain ⟨hnone, hread⟩ | ⟨raws, hv, hread⟩ | ⟨v, hv, harr, hread⟩ := fieldsIn_cases place members
  · rw [hread]
    exact ⟨fun _ => .absent hnone, fun _ => ⟨[], rfl⟩⟩
  · rw [hread, readAll_ok_iff 0 raws fun raw hmem => ih raw (sizeOf_element_lt hv hmem),
      fieldsForm_iff hv]
    constructor
    · exact fun hf => .inr ⟨raws, rfl, hf⟩
    · intro hform
      rcases hform with hfalse | ⟨raws, h, hf⟩
      · cases raws with
        | nil => simp
        | cons first rest => simp [Json.isTrue] at hfalse
      · rwa [Json.arr.inj h]
  · rw [hread, fieldsForm_iff hv]
    cases htrue : v.isTrue with
    | false => exact ⟨fun _ => .inl rfl, fun _ => ⟨[], rfl⟩⟩
    | true =>
      -- A true value has elements, and they are no objects.
      simp only [if_true]
      rw [noObjects_ok_iff harr]
      constructor
      · intro h
        simp [isTrue_of_noObjects h] at htrue
      · intro hform
        rcases hform with h | ⟨raws, h, -⟩
        · simp at h
        · exact absurd h (harr raws)

theorem shapeIn_ok_iff
    (ih : ∀ raw : Json, sizeOf raw < sizeOf members → ∀ place,
      (∃ node, field place raw = .ok node) ↔ FieldForm raw) (place : Location) :
    (∃ node, shapeIn place members = .ok node) ↔ HasPart members .shape := by
  obtain ⟨hnone, hread⟩ | ⟨type, hv, hread⟩ | ⟨v, hv, hobj, hread⟩ := shapeIn_cases place members
  · rw [hread]
    refine ⟨by simp, ?_⟩
    intro hform
    rcases hform with _ | _ | _ | ⟨h, -⟩
    simp [hnone] at h
  · have hlt := sizeOf_members_lt hv
    rw [hread, hasPart_shape_iff hv, exists_map_eq_ok,
      fieldsIn_ok_iff fun raw h => ih raw (Nat.lt_trans h hlt)]
    simp
  · rw [hread, hasPart_shape_iff hv]
    simp [hobj]

theorem itemsIn_ok_iff
    (ih : ∀ raw : Json, sizeOf raw < sizeOf members → ∀ place,
      (∃ node, item place raw = .ok node) ↔ ItemForm raw) (place : Location) :
    (∃ nodes, itemsIn place members = .ok nodes) ↔ HasPart members .items := by
  obtain ⟨hnone, hread⟩ | ⟨raws, hv, hread⟩ | ⟨v, hv, harr, hread⟩ := itemsIn_cases place members
  · rw [hread]
    refine ⟨by simp, ?_⟩
    intro hform
    rcases hform with _ | _ | _ | _ | _ | ⟨h, -⟩ | ⟨h, -⟩
    · simp [hnone] at h
    · simp [hnone] at h
  · rw [hread, readAll_ok_iff 0 raws fun raw hmem => ih raw (sizeOf_element_lt hv hmem),
      hasPart_items_iff hv]
    simp
  · rw [hread, noObjects_ok_iff harr, hasPart_items_iff hv]
    simp [harr]

theorem readPart_ok_iff
    (ih : ∀ raw : Json, sizeOf raw < sizeOf members →
      (∀ place, (∃ node, field place raw = .ok node) ↔ FieldForm raw) ∧
      (∀ place, (∃ node, item place raw = .ok node) ↔ ItemForm raw))
    (place : Location) (part : Part) :
    (∃ node, readPart place members part = .ok node) ↔ HasPart members part := by
  cases part with
  | nothing => exact ⟨fun _ => .nothing, fun _ => ⟨_, rfl⟩⟩
  | value key =>
    simp only [readPart, exists_map_eq_ok, require_ok_iff]
    constructor
    · intro hform
      obtain ⟨v, hv⟩ := hform
      exact .value hv
    · rintro ⟨⟩
      exact ⟨_, ‹_›⟩
  | elements key =>
    simp only [readPart, exists_map_eq_ok, exists_bind_eq_ok, require_ok_iff, listOf_ok_iff]
    constructor
    · intro hform
      obtain ⟨v, hv, he⟩ := hform
      exact .elements hv he
    · rintro ⟨⟩
      exact ⟨_, ‹_›, ‹_›⟩
  | shape => exact shapeIn_ok_iff (fun raw hlt => (ih raw hlt).1) place
  | item =>
    rw [readPart]
    obtain ⟨hnone, hread⟩ | ⟨raw, hv, hread⟩ := itemIn_cases place members
    · rw [hread]
      refine ⟨by simp, ?_⟩
      intro hform
      rcases hform with _ | _ | _ | _ | ⟨h, -⟩
      simp [hnone] at h
    · rw [hread, hasPart_item_iff hv]
      exact (ih raw (sizeOf_lookup_lt hv)).2 _
  | items =>
    rw [readPart, exists_map_eq_ok]
    exact itemsIn_ok_iff (fun raw hlt => (ih raw hlt).2) place

end Parts

/-- **Fields and items are read exactly if they are of the form.** -/
theorem field_item_ok_iff (raw : Json) :
    (∀ place, (∃ node, field place raw = .ok node) ↔ FieldForm raw) ∧
    (∀ place, (∃ node, item place raw = .ok node) ↔ ItemForm raw) := by
  induction raw using inside_induction with
  | other raw hobj =>
    refine ⟨fun place => ?_, fun place => ?_⟩
    · rw [field_of_ne_obj place hobj]
      refine ⟨by simp, ?_⟩
      rintro ⟨⟩
      exact absurd rfl (hobj _)
    · rw [item_of_ne_obj place hobj]
      refine ⟨by simp, ?_⟩
      rintro ⟨⟩
      exact absurd rfl (hobj _)
  | object members ih =>
    have hpart := readPart_ok_iff ih
    constructor
    · intro place
      simp only [field_obj, exists_bind_eq_ok, exists_map_eq_ok, fieldTag_eq_ok, hpart]
      constructor
      · intro hform
        obtain ⟨tag, ht, hp⟩ := hform
        exact .mk tag ht hp
      · intro hform
        obtain ⟨tag, ht, hp⟩ := hform
        exact ⟨tag, ht, hp⟩
    · intro place
      simp only [item_obj, exists_bind_eq_ok, exists_map_eq_ok, itemTag_eq_ok, hpart]
      constructor
      · intro hform
        obtain ⟨tag, ht, hp⟩ := hform
        exact .mk tag ht hp
      · intro hform
        obtain ⟨tag, ht, hp⟩ := hform
        exact ⟨tag, ht, hp⟩

/-! ### Definitions -/

theorem computedField_ok_iff (place : Location) (raw : Json) :
    (∃ node, computedField place raw = .ok node) ↔ ComputedForm raw := by
  unfold computedField ComputedForm
  cases raw with
  | obj members =>
    cases hn : members.lookup "name" with
    | none => simp [Json.contains?, hn]
    | some name => cases ht : members.lookup "type" <;> simp [Json.contains?, hn, ht]
  | arr vs =>
    simp only [Json.contains?]
    split <;> simp_all
  | str s =>
    simp only [Json.contains?]
    split <;> simp_all
  | _ => simp [Json.contains?]

/-- The elements of a value other than an array are texts, none of which is a
computed field. -/
theorem not_computedForm_of_elements {v raw : Json} {raws : List Json} (hv : ∀ vs, v ≠ .arr vs)
    (h : v.elements? = some raws) (hmem : raw ∈ raws) : ¬ ComputedForm raw := by
  intro hform
  obtain ⟨members, -, -, rfl, -⟩ := hform
  cases v with
  | arr vs => exact hv vs rfl
  | str s =>
    simp only [Json.elements?, Option.some.injEq] at h
    simp [← h] at hmem
  | obj entries =>
    simp only [Json.elements?, Option.some.injEq] at h
    simp [← h] at hmem
  | _ => simp [Json.elements?] at h

theorem elements_ne_nil {v : Json} {vs : List Json} (htrue : v.isTrue = true)
    (h : v.elements? = some vs) : vs ≠ [] := by
  rintro rfl
  cases v with
  | arr vs =>
    obtain rfl := Option.some.inj h
    simp [Json.isTrue] at htrue
  | str s =>
    have hs : s = "" := by simpa [Json.elements?] using h
    simp [hs, Json.isTrue] at htrue
  | obj members =>
    have hm : members = [] := by simpa [Json.elements?] using h
    simp [hm, Json.isTrue] at htrue
  | _ => simp [Json.elements?] at h

theorem computedFields_ok_iff (place : Location) (members : List (String × Json)) :
    (∃ nodes, computedFields place members = .ok nodes) ↔
      AbsentOr (members.lookup "computedFields") fun v =>
        ∃ raws, v = .arr raws ∧ ∀ raw ∈ raws, ComputedForm raw := by
  have hall : ∀ raws, (∃ nodes, readAll computedField .computed place 0 raws = .ok nodes) ↔
      ∀ raw ∈ raws, ComputedForm raw := fun raws =>
    readAll_ok_iff 0 raws fun raw _ place => computedField_ok_iff place raw
  unfold AbsentOr
  obtain ⟨hfalse, hread⟩ | ⟨v, raws, hv, htrue, hraws, hread⟩ | ⟨v, hv, htrue, hnone, hread⟩ :=
    computedFields_cases place members
  · rw [hread]
    exact ⟨fun _ v hv => .inl (hfalse v hv), fun _ => ⟨[], rfl⟩⟩
  · simp only [hread, hall, hv, Option.some.injEq, forall_eq', htrue, Bool.true_eq_false, false_or]
    by_cases harr : ∃ vs, v = .arr vs
    · obtain ⟨vs, rfl⟩ := harr
      obtain rfl : vs = raws := Option.some.inj hraws
      simp
    · have harr : ∀ vs, v ≠ .arr vs := fun vs h => harr ⟨vs, h⟩
      obtain ⟨raw, hmem⟩ := List.exists_mem_of_ne_nil raws (elements_ne_nil htrue hraws)
      have hno := not_computedForm_of_elements harr hraws hmem
      constructor
      · exact fun h => absurd (h raw hmem) hno
      · intro hform
        obtain ⟨vs, h, -⟩ := hform
        exact absurd h (harr vs)
  · simp only [hread, hv, Option.some.injEq, forall_eq', htrue, Bool.true_eq_false, false_or]
    refine ⟨by simp, ?_⟩
    intro hform
    obtain ⟨raws, rfl, -⟩ := hform
    simp [Json.elements?] at hnone

theorem computedIn_ok_iff (part : Section) (place : Location) (members : List (String × Json)) :
    (∃ nodes, computedIn part place members = .ok nodes) ↔
      (part = .documents → AbsentOr (members.lookup "computedFields") fun v =>
        ∃ raws, v = .arr raws ∧ ∀ raw ∈ raws, ComputedForm raw) := by
  cases part with
  | documents => simp [computedIn, computedFields_ok_iff]
  | nested => simp [computedIn]

theorem effectiveName_isKey_iff (key : String) (members : List (String × Json)) :
    (effectiveName key members).isKey = true ↔
      ∀ v, members.lookup "name" = some v → v.isKey = true := by
  unfold effectiveName
  cases members.lookup "name" <;> simp [Json.isKey]

/-- A definition of an object: its fields, its computed fields if it is one of a
document type, and a name that can be a key. -/
theorem definition_ok_iff (part : Section) (key : String) (raw : Json) :
    (∃ entry, definition part key raw = .ok entry) ↔
      ∃ members, raw = .obj members ∧ DefinitionForm part members := by
  cases raw with
  | obj members =>
    have hfields := fieldsIn_ok_iff (fun raw (_ : sizeOf raw < sizeOf members) =>
      (field_item_ok_iff raw).1) (.entry part key)
    have hcomputed := computedIn_ok_iff part (.entry part key) members
    have hname := effectiveName_isKey_iff key members
    simp only [Json.obj.injEq, exists_eq_left', definition_eq_ok]
    constructor
    · intro hform
      obtain ⟨-, found, hf, computed, hc, hkey, -⟩ := hform
      exact ⟨hname.mp hkey, hfields.mp ⟨found, hf⟩, hcomputed.mp ⟨computed, hc⟩⟩
    · intro hform
      obtain ⟨hn, hf, hc⟩ := hform
      obtain ⟨found, hf⟩ := hfields.mpr hf
      obtain ⟨computed, hc⟩ := hcomputed.mpr hc
      exact ⟨_, found, hf, computed, hc, hname.mpr hn, rfl⟩
  | _ => simp [definition]

theorem entries_ok_iff (part : Section) : ∀ (registry : Registry) (found : List (String × Json)),
    (∃ result, entries part registry found = .ok result) ↔
      ∀ key raw, (key, raw) ∈ found → ∃ entry, definition part key raw = .ok entry
  | registry, [] => by simp [entries]
  | registry, (key, raw) :: rest => by
    simp only [entries, exists_bind_eq_ok, entries_ok_iff part]
    constructor
    · rintro ⟨entry, hentry, hrest⟩ key' raw' hmem
      rcases List.mem_cons.mp hmem with h | h
      · obtain ⟨rfl, rfl⟩ := Prod.mk.inj h
        exact ⟨entry, hentry⟩
      · exact hrest key' raw' h
    · intro h
      obtain ⟨entry, hentry⟩ := h key raw List.mem_cons_self
      exact ⟨entry, hentry, fun key raw hmem => h key raw (List.mem_cons_of_mem _ hmem)⟩

theorem section_ok_iff (part : Section) (members : List (String × Json)) :
    (∃ registry, section? part members = .ok registry) ↔
      AbsentOr (members.lookup (sectionKey part)) (MapForm part) := by
  unfold AbsentOr
  obtain ⟨hread, hfalse⟩ | ⟨found, hread, hv⟩ | ⟨v, hread, hv, htrue, hobj⟩ :=
    section_cases part members
  · rw [hread]
    exact ⟨fun _ v hv => .inl (hfalse v hv), fun _ => ⟨[], rfl⟩⟩
  · simp only [hread, entries_ok_iff, definition_ok_iff, hv, Option.some.injEq, forall_eq', MapForm,
      Json.obj.injEq, exists_eq_left']
    constructor
    · exact .inr
    · intro hform
      rcases hform with hfalse | h
      · have hnil : found = [] := by simpa [Json.isTrue] using hfalse
        simp [hnil]
      · exact h
  · simp [hread, hv, htrue, MapForm, hobj]

/-- **A dump is read exactly if it is of the form.** -/
theorem schema_ok_iff (data : Json) : (∃ schema, Dump.schema data = .ok schema) ↔ DumpForm data := by
  cases data with
  | obj members =>
    have hread : (∃ schema, Dump.schema (.obj members) = .ok schema) ↔
        (∃ documents, section? .documents members = .ok documents) ∧
          ∃ nested, section? .nested members = .ok nested := by
      simp only [schema, exists_bind_eq_ok]
      constructor
      · intro hform
        obtain ⟨documents, hd, nested, hn, -⟩ := hform
        exact ⟨⟨documents, hd⟩, ⟨nested, hn⟩⟩
      · intro hform
        obtain ⟨⟨documents, hd⟩, ⟨nested, hn⟩⟩ := hform
        exact ⟨documents, hd, nested, hn, _, rfl⟩
    rw [hread, section_ok_iff, section_ok_iff]
    constructor
    · intro hform
      obtain ⟨hd, hn⟩ := hform
      refine ⟨members, rfl, fun part => ?_⟩
      cases part with
      | documents => exact hd
      | nested => exact hn
    · intro hform
      obtain ⟨_, ⟨⟩, h⟩ := hform
      exact ⟨h .documents, h .nested⟩
  | _ => simp [schema, DumpForm]

end Dump
end ContentDecl
