/-
# The defect that is reported is the first one

The reader goes through a dump from left to right and inwards: the document types
before the nested types, the entries of a map one after the other, of a definition
the fields before the computed fields, and the elements of a list one after the
other. It comes to a value at a place only if everything before it was read.

A defect that stops the reader names a place that it came to, and the value there
has the defect: it has no type, or one that is not known, or it lacks the member
that its kind needs, or it is a computed field without a name or a type. A reader
that stops elsewhere stops without naming a place.

The place is written as the names of the steps to it, from the map on, and the defect as
the reason behind it.

Key definitions: `Role`, `Step.follow`, `Leads`, `Step.Cleared`, `Visits`,
`Defect.Holds`, `Location.Written`, `Defect.Written`.
Key theorems: `readAll_explained`, `field_item_explained`, `Location.written_text`,
`schema_defect`.
-/
import ContentDecl.Proofs.Dump.Form
import Mathlib.Data.List.Induction

namespace ContentDecl
namespace Dump

open Result

/-! ### Ways through a dump -/

/-- What a value of a dump is read as. -/
inductive Role where
  | definition (part : Section)
  | field
  | item
  | shape
  | computed
  deriving DecidableEq

/-- The value that a step leads to from the members of an object. -/
def Step.follow (members : List (String × Json)) : Step → Option Json
  | field index => members.lookup "fieldDefs" >>= fun v => v.elements? >>= fun raws => raws[index]?
  | computed index =>
    members.lookup "computedFields" >>= fun v => v.elements? >>= fun raws => raws[index]?
  | shape => members.lookup "typeDef"
  | item => members.lookup "of"
  | itemAt index => members.lookup "of" >>= fun v => v.elements? >>= fun raws => raws[index]?

/-- The steps that lead further, by what an object is read as, and what the value
behind the step is read as. A field or an item has to be of a kind with this part. -/
inductive Leads (members : List (String × Json)) : Role → Step → Role → Prop
  | field (part : Section) (index : Nat) : Leads members (.definition part) (.field index) .field
  | computed (index : Nat) : Leads members (.definition .documents) (.computed index) .computed
  | shapeField (index : Nat) : Leads members .shape (.field index) .field
  | fieldShape (tag : FieldTag) (ht : members.lookup "type" = some (.str tag.text))
    (hp : tag.part = .shape) : Leads members .field .shape .shape
  | itemShape (tag : ItemTag) (ht : members.lookup "type" = some (.str tag.text))
    (hp : tag.part = .shape) : Leads members .item .shape .shape
  | fieldItem (tag : FieldTag) (ht : members.lookup "type" = some (.str tag.text))
    (hp : tag.part = .item) : Leads members .field .item .item
  | fieldItems (tag : FieldTag) (ht : members.lookup "type" = some (.str tag.text))
    (hp : tag.part = .items) (index : Nat) : Leads members .field (.itemAt index) .item

/-- What comes before a step is read: the elements before it, and the fields before
the computed fields. -/
def Step.Cleared (place : Location) (members : List (String × Json)) : Step → Prop
  | field index => ∀ i < index, ∀ raw, (Step.field i).follow members = some raw →
    ∃ node, Dump.field (place.down (.field i)) raw = .ok node
  | computed index => (∃ nodes, fieldsIn place members = .ok nodes) ∧
    ∀ i < index, ∀ raw, (Step.computed i).follow members = some raw →
      ∃ node, computedField (place.down (.computed i)) raw = .ok node
  | itemAt index => ∀ i < index, ∀ raw, (Step.itemAt i).follow members = some raw →
    ∃ node, Dump.item (place.down (.itemAt i)) raw = .ok node
  | shape => True
  | item => True

/-- The reader comes to a value at a place and reads it in a role. -/
inductive Visits (data : Json) : Location → Role → Json → Prop
  | entry {top before after : List (String × Json)} {part : Section} {key : String} {raw : Json}
    (htop : data = .obj top)
    (hmap : top.lookup (sectionKey part) = some (.obj (before ++ (key, raw) :: after)))
    (hsections : part = .nested → ∃ registry, section? .documents top = .ok registry)
    (hbefore : ∀ entry ∈ before, ∃ found, definition part entry.1 entry.2 = .ok found) :
    Visits data (.entry part key) (.definition part) raw
  | down {place : Location} {role role' : Role} {members : List (String × Json)} {raw : Json}
    (step : Step) (h : Visits data place role (.obj members)) (hstep : Leads members role step role')
    (hraw : step.follow members = some raw) (hclear : step.Cleared place members) :
    Visits data (place.down step) role' raw

/-! ### Defects of values -/

/-- The member that a part is. -/
def Part.key? : Part → Option String
  | .nothing => none
  | .value key => some key
  | .elements key => some key
  | .shape => some "typeDef"
  | .item => some "of"
  | .items => some "of"

/-- A value that is read in a role has the defect. -/
def Defect.Holds (role : Role) (raw : Json) : Defect → Prop
  | noFieldType => role = .field ∧ ∃ members, raw = .obj members ∧
    (members.lookup "type" = none ∨ members.lookup "type" = some .null)
  | unknownFieldType type => role = .field ∧ ∃ members, raw = .obj members ∧
    members.lookup "type" = some type ∧ type ≠ .null ∧ type.isKey = true ∧
    ∀ tag : FieldTag, type ≠ .str tag.text
  | unsupportedItemType type => role = .item ∧ ∃ members, raw = .obj members ∧
    (members.lookup "type").getD .null = type ∧ ∀ tag : ItemTag, type ≠ .str tag.text
  | missing key => ∃ members, raw = .obj members ∧ members.lookup key = none ∧
    ((role = .field ∧ ∃ tag : FieldTag, members.lookup "type" = some (.str tag.text) ∧
        tag.part.key? = some key) ∨
      (role = .item ∧ ∃ tag : ItemTag, members.lookup "type" = some (.str tag.text) ∧
        tag.part.key? = some key))
  | incompleteComputedField => role = .computed ∧ ∃ name type, raw.contains? "name" = some name ∧
    raw.contains? "type" = some type ∧ (name && type) = false

/-! ### Messages -/

/-- How a place is written: the map and the key of the entry, and then each step down
behind a point. -/
inductive Location.Written : Location → String → Prop
  | document (key : String) :
    Written (.entry .documents key) ("documentTypeDefMap" ++ "." ++ key)
  | nestedType (key : String) : Written (.entry .nested key) ("nestedTypeDefMap" ++ "." ++ key)
  | field {place : Location} {path : String} (h : Written place path) (index : Nat) :
    Written (place.down (.field index)) (path ++ "." ++ ("fieldDefs[" ++ toString index ++ "]"))
  | computed {place : Location} {path : String} (h : Written place path) (index : Nat) :
    Written (place.down (.computed index))
      (path ++ "." ++ ("computedFields[" ++ toString index ++ "]"))
  | shape {place : Location} {path : String} (h : Written place path) :
    Written (place.down .shape) (path ++ "." ++ "typeDef")
  | item {place : Location} {path : String} (h : Written place path) :
    Written (place.down .item) (path ++ "." ++ "of")
  | itemAt {place : Location} {path : String} (h : Written place path) (index : Nat) :
    Written (place.down (.itemAt index)) (path ++ "." ++ ("of[" ++ toString index ++ "]"))

/-- The reason that is given for a defect. -/
inductive Defect.Written : Defect → String → Prop
  | noFieldType : Written .noFieldType "field definition has no 'type'"
  | unknownFieldType (type : Json) :
    Written (.unknownFieldType type) ("unknown field type '" ++ type.text ++ "'")
  | unsupportedItemType (type : Json) :
    Written (.unsupportedItemType type) ("unsupported list item type '" ++ type.text ++ "'")
  | missing (key : String) : Written (.missing key) ("missing '" ++ key ++ "'")
  | incompleteComputedField :
    Written .incompleteComputedField "computed field requires 'name' and 'type'"

theorem Location.Written.down {place : Location} {path : String} (h : place.Written path)
    (step : Step) : (place.down step).Written (path ++ "." ++ step.text) := by
  cases step with
  | field index => exact h.field index
  | computed index => exact h.computed index
  | shape => exact h.shape
  | item => exact h.item
  | itemAt index => exact h.itemAt index

/-- The text of a place is how it is written. -/
theorem Location.written_text (place : Location) : place.Written place.text := by
  obtain ⟨map, key, steps⟩ := place
  induction steps using List.reverseRecOn with
  | nil =>
    have htext : text ⟨map, key, []⟩ = _ := text_entry map key
    rw [htext]
    cases map with
    | documents => exact .document key
    | nested => exact .nestedType key
  | append_singleton steps step ih =>
    have htext : text ⟨map, key, steps ++ [step]⟩ = _ := text_down ⟨map, key, steps⟩ step
    rw [htext]
    exact ih.down step

theorem Defect.written_text (wrong : Defect) : wrong.Written wrong.text := by
  cases wrong with
  | noFieldType => exact .noFieldType
  | unknownFieldType type => exact .unknownFieldType type
  | unsupportedItemType type => exact .unsupportedItemType type
  | missing key => exact .missing key
  | incompleteComputedField => exact .incompleteComputedField

/-! ### Explained faults -/

/-- A fault that names a place names one that the reader comes to, and a defect of
the value there. -/
def Explained (data : Json) (fault : Fault) : Prop :=
  fault.isLoadFault = true → ∃ place wrong role raw, fault = .defect place wrong ∧
    Visits data place role raw ∧ wrong.Holds role raw

section Explained

variable {data : Json} {place : Location} {members : List (String × Json)}

theorem Visits.explained {role : Role} {raw : Json} {wrong : Defect}
    (h : Visits data place role raw) (hw : wrong.Holds role raw) :
    Explained data (.defect place wrong) :=
  fun _ => ⟨place, wrong, role, raw, rfl, h, hw⟩

theorem typeMismatch_explained : Explained data .typeMismatch := nofun

theorem missingAttribute_explained : Explained data .missingAttribute := nofun

theorem fieldTag_explained (h : Visits data place .field (.obj members)) :
    FailsOnly (Explained data) (fieldTag place members) := by
  unfold fieldTag Json.member
  cases hv : members.lookup "type" with
  | none => exact .error (h.explained ⟨rfl, members, rfl, .inl hv⟩)
  | some v =>
    cases v with
    | null => exact .error (h.explained ⟨rfl, members, rfl, .inr hv⟩)
    | str word =>
      cases hw : FieldTag.ofText? word with
      | some tag => simpa [hw] using FailsOnly.ok tag
      | none =>
        have hne : ∀ tag : FieldTag, Json.str word ≠ .str tag.text := by
          rintro tag ⟨⟩
          simp [FieldTag.ofText?_text] at hw
        simp only [Option.getD_some, hw]
        exact .error (h.explained ⟨rfl, members, rfl, hv, nofun, rfl, hne⟩)
    | bool | int | float => exact .error (h.explained ⟨rfl, members, rfl, hv, nofun, rfl, nofun⟩)
    | arr | obj | record => exact .error typeMismatch_explained

theorem itemTag_explained (h : Visits data place .item (.obj members)) :
    FailsOnly (Explained data) (itemTag place members) := by
  unfold itemTag Json.member
  cases hv : (members.lookup "type").getD .null with
  | str word =>
    cases hw : ItemTag.ofText? word with
    | some tag => simpa [hw] using FailsOnly.ok tag
    | none =>
      have hne : ∀ tag : ItemTag, Json.str word ≠ .str tag.text := by
        rintro tag ⟨⟩
        simp [ItemTag.ofText?_text] at hw
      simp only [hw]
      exact .error (h.explained ⟨rfl, members, rfl, hv, hne⟩)
  | _ => exact .error (h.explained ⟨rfl, members, rfl, hv, nofun⟩)

theorem require_explained {key : String} (h : members.lookup key = none →
    Explained data (.defect place (.missing key))) :
    FailsOnly (Explained data) (require place members key) := by
  unfold require
  cases hv : members.lookup key with
  | none => exact .error (h hv)
  | some v => exact .ok v

theorem listOf_explained (v : Json) : FailsOnly (Explained data) (listOf v) := by
  unfold listOf
  split
  · exact .ok _
  · exact .error typeMismatch_explained

theorem noObjects_explained (v : Json) : FailsOnly (Explained data) (noObjects v) := by
  unfold noObjects
  split
  · exact .ok _
  · exact .error missingAttribute_explained
  · exact .error typeMismatch_explained

/-- The elements of a list are read in order: at each the reader has what comes
before cleared. -/
theorem readAll_explained {role role' : Role} {read : Location → Json → Except Fault Node}
    {step : Nat → Step} {raws : List Json} (h : Visits data place role (.obj members))
    (hstep : ∀ index, Leads members role (step index) role')
    (hfollow : ∀ index, (step index).follow members = raws[index]?)
    (hclear : ∀ index, (∀ i < index, ∀ raw, (step i).follow members = some raw →
      ∃ node, read (place.down (step i)) raw = .ok node) → (step index).Cleared place members)
    (hread : ∀ raw ∈ raws, ∀ place, Visits data place role' raw →
      FailsOnly (Explained data) (read place raw)) :
    FailsOnly (Explained data) (readAll read step place 0 raws) := by
  refine readAll_failsOnly 0 raws fun i raw hraw hbefore => ?_
  simp only [Nat.zero_add] at hbefore ⊢
  have hcleared : (step i).Cleared place members := hclear i fun j hj other hother =>
    hbefore j hj other ((hfollow j).symm.trans hother)
  exact hread raw (List.mem_of_getElem? hraw) _
    (h.down (step i) (hstep i) ((hfollow i).trans hraw) hcleared)

theorem fieldsIn_explained {role : Role}
    (ih : ∀ raw : Json, sizeOf raw < sizeOf members → ∀ place, Visits data place .field raw →
      FailsOnly (Explained data) (field place raw))
    (h : Visits data place role (.obj members))
    (hstep : ∀ index, Leads members role (.field index) .field) :
    FailsOnly (Explained data) (fieldsIn place members) := by
  obtain ⟨-, hread⟩ | ⟨raws, hv, hread⟩ | ⟨v, -, -, hread⟩ := fieldsIn_cases place members
  · rw [hread]
    exact .ok _
  · rw [hread]
    have hfollow : ∀ i, (Step.field i).follow members = raws[i]? := fun i => by
      simp [Step.follow, hv, Json.elements?]
    exact readAll_explained h hstep hfollow (fun _ hbefore => hbefore) fun raw hmem =>
      ih raw (sizeOf_element_lt hv hmem)
  · rw [hread]
    split
    · exact noObjects_explained v
    · exact .ok _

theorem itemsIn_explained {role : Role}
    (ih : ∀ raw : Json, sizeOf raw < sizeOf members → ∀ place, Visits data place .item raw →
      FailsOnly (Explained data) (item place raw))
    (h : Visits data place role (.obj members))
    (hstep : ∀ index, Leads members role (.itemAt index) .item)
    (hmissing : members.lookup "of" = none → Explained data (.defect place (.missing "of"))) :
    FailsOnly (Explained data) (itemsIn place members) := by
  obtain ⟨hnone, hread⟩ | ⟨raws, hv, hread⟩ | ⟨v, -, -, hread⟩ := itemsIn_cases place members
  · rw [hread]
    exact .error (hmissing hnone)
  · rw [hread]
    have hfollow : ∀ i, (Step.itemAt i).follow members = raws[i]? := fun i => by
      simp [Step.follow, hv, Json.elements?]
    exact readAll_explained h hstep hfollow (fun _ hbefore => hbefore) fun raw hmem =>
      ih raw (sizeOf_element_lt hv hmem)
  · rw [hread]
    exact noObjects_explained v

theorem shapeIn_explained {role : Role}
    (ih : ∀ raw : Json, sizeOf raw < sizeOf members → ∀ place, Visits data place .field raw →
      FailsOnly (Explained data) (field place raw))
    (h : Visits data place role (.obj members)) (hstep : Leads members role .shape .shape)
    (hmissing : members.lookup "typeDef" = none →
      Explained data (.defect place (.missing "typeDef"))) :
    FailsOnly (Explained data) (shapeIn place members) := by
  obtain ⟨hnone, hread⟩ | ⟨type, hv, hread⟩ | ⟨v, -, -, hread⟩ := shapeIn_cases place members
  · rw [hread]
    exact .error (hmissing hnone)
  · rw [hread]
    have hlt := sizeOf_members_lt hv
    have hshape : Visits data (place.down .shape) .shape (.obj type) :=
      h.down .shape hstep hv trivial
    exact .map _ (fieldsIn_explained (fun raw h => ih raw (Nat.lt_trans h hlt)) hshape .shapeField)
  · rw [hread]
    exact .error missingAttribute_explained

/-- The part of a visited object is read, or its defect is explained, if the steps
to the part lead there. -/
theorem readPart_explained {role : Role} {part : Part}
    (ih : ∀ raw : Json, sizeOf raw < sizeOf members →
      (∀ place, Visits data place .field raw → FailsOnly (Explained data) (field place raw)) ∧
      (∀ place, Visits data place .item raw → FailsOnly (Explained data) (item place raw)))
    (h : Visits data place role (.obj members))
    (hmissing : ∀ key, part.key? = some key → members.lookup key = none →
      Explained data (.defect place (.missing key)))
    (hshape : part = .shape → Leads members role .shape .shape)
    (hitem : part = .item → Leads members role .item .item)
    (hitems : part = .items → ∀ index, Leads members role (.itemAt index) .item) :
    FailsOnly (Explained data) (readPart place members part) := by
  cases part with
  | nothing => exact .ok _
  | value key => exact .map _ (require_explained (hmissing key rfl))
  | elements key =>
    exact .map _ (.bind (require_explained (hmissing key rfl)) fun v _ => listOf_explained v)
  | shape =>
    exact shapeIn_explained (fun raw hlt => (ih raw hlt).1) h (hshape rfl) (hmissing "typeDef" rfl)
  | item =>
    rw [readPart]
    obtain ⟨hnone, hread⟩ | ⟨raw, hv, hread⟩ := itemIn_cases place members
    · rw [hread]
      exact .error (hmissing "of" rfl hnone)
    · rw [hread]
      exact (ih raw (sizeOf_lookup_lt hv)).2 _ (h.down .item (hitem rfl) hv trivial)
  | items =>
    exact .map _ (itemsIn_explained (fun raw hlt => (ih raw hlt).2) h (hitems rfl)
      (hmissing "of" rfl))

/-- A visited field and a visited item are read, or their defect is explained. -/
theorem field_item_explained (data raw : Json) :
    (∀ place, Visits data place .field raw → FailsOnly (Explained data) (field place raw)) ∧
    (∀ place, Visits data place .item raw → FailsOnly (Explained data) (item place raw)) := by
  induction raw using inside_induction with
  | other raw hobj =>
    refine ⟨fun place _ => ?_, fun place _ => ?_⟩
    · rw [field_of_ne_obj place hobj]
      exact .error missingAttribute_explained
    · rw [item_of_ne_obj place hobj]
      exact .error missingAttribute_explained
  | object members ih =>
    constructor
    · intro place h
      rw [field_obj]
      refine .bind (fieldTag_explained h) fun tag htag => .map _ ?_
      have ht := fieldTag_eq_ok.mp htag
      refine readPart_explained ih h (fun key hkey hnone => ?_) (.fieldShape tag ht)
        (.fieldItem tag ht) (.fieldItems tag ht)
      exact h.explained ⟨members, rfl, hnone, .inl ⟨rfl, tag, ht, hkey⟩⟩
    · intro place h
      rw [item_obj]
      refine .bind (itemTag_explained h) fun tag htag => .map _ ?_
      have ht := itemTag_eq_ok.mp htag
      -- An item holds no items.
      refine readPart_explained ih h (fun key hkey hnone => ?_) (.itemShape tag ht)
        (fun hp => ?_) (fun hp => ?_)
      · exact h.explained ⟨members, rfl, hnone, .inr ⟨rfl, tag, ht, hkey⟩⟩
      · cases tag <;> cases hp
      · cases tag <;> cases hp

/-! ### Definitions and maps -/

/-- Whether a value contains anything depends on the value alone. -/
theorem contains_eq_some {raw : Json} {name : String} {b : Bool}
    (h : raw.contains? name = some b) (other : String) : ∃ c, raw.contains? other = some c := by
  cases raw with
  | arr | obj | str => exact ⟨_, rfl⟩
  | _ => simp [Json.contains?] at h

theorem computedField_explained {raw : Json} (h : Visits data place .computed raw) :
    FailsOnly (Explained data) (computedField place raw) := by
  unfold computedField
  cases hn : raw.contains? "name" with
  | none => exact .error typeMismatch_explained
  | some name =>
    obtain ⟨type, ht⟩ := contains_eq_some hn "type"
    rw [ht]
    by_cases hboth : (name && type) = true
    · obtain ⟨rfl, rfl⟩ := Bool.and_eq_true_iff.mp hboth
      cases raw with
      | obj members => exact .ok _
      | _ => exact .error typeMismatch_explained
    · have hboth : (name && type) = false := Bool.eq_false_iff.mpr hboth
      have hholds : Defect.incompleteComputedField.Holds .computed raw :=
        ⟨rfl, name, type, hn, ht, hboth⟩
      cases name <;> cases type <;> first | exact .error (h.explained hholds) | cases hboth

/-- The computed fields of a document type are read in order, after its fields. -/
theorem computedIn_explained {part : Section} (h : Visits data place (.definition part) (.obj members))
    (hfields : ∃ nodes, fieldsIn place members = .ok nodes) :
    FailsOnly (Explained data) (computedIn part place members) := by
  cases part with
  | nested => exact .ok _
  | documents =>
    rw [computedIn]
    obtain ⟨-, hread⟩ | ⟨v, raws, hv, -, hraws, hread⟩ | ⟨v, -, -, -, hread⟩ :=
      computedFields_cases place members
    · rw [hread]
      exact .ok _
    · rw [hread]
      have hfollow : ∀ i, (Step.computed i).follow members = raws[i]? := fun i => by
        simp [Step.follow, hv, hraws]
      exact readAll_explained h .computed hfollow (fun _ hbefore => ⟨hfields, hbefore⟩)
        fun raw _ place => computedField_explained
    · rw [hread]
      exact .error typeMismatch_explained

theorem definition_explained {part : Section} {key : String} {raw : Json}
    (h : Visits data (.entry part key) (.definition part) raw) :
    FailsOnly (Explained data) (definition part key raw) := by
  cases raw with
  | obj members =>
    rw [definition_obj]
    refine .bind ?_ fun found hfound => .bind (computedIn_explained h ⟨found, hfound⟩) fun _ _ => ?_
    · exact fieldsIn_explained (fun raw _ => (field_item_explained data raw).1) h (.field part)
    · split
      · exact .ok _
      · exact .error typeMismatch_explained
  | _ => exact .error missingAttribute_explained

/-- Entries are put in one after the other, each after those before it. -/
theorem entries_failsOnly {p : Fault → Prop} {part : Section} : ∀ (before : List (String × Json))
    {registry : Registry} {found : List (String × Json)},
    (∀ entry ∈ before, ∃ result, definition part entry.1 entry.2 = .ok result) →
    (∀ middle key raw after, before ++ found = middle ++ (key, raw) :: after →
      (∀ entry ∈ middle, ∃ result, definition part entry.1 entry.2 = .ok result) →
      FailsOnly p (definition part key raw)) →
    FailsOnly p (entries part registry found)
  | _, registry, [], _, _ => .ok registry
  | before, registry, (key, raw) :: rest, hbefore, h => by
    rw [entries]
    refine .bind (h before key raw rest rfl hbefore) fun result hresult => ?_
    refine entries_failsOnly (before ++ [(key, raw)]) (fun entry hmem => ?_) ?_
    · rcases List.mem_append.mp hmem with hmem | hmem
      · exact hbefore entry hmem
      · obtain rfl := List.mem_singleton.mp hmem
        exact ⟨result, hresult⟩
    · rwa [List.append_assoc]

theorem section_explained {top : List (String × Json)} (part : Section)
    (hsections : part = .nested → ∃ registry, section? .documents top = .ok registry) :
    FailsOnly (Explained (.obj top)) (section? part top) := by
  obtain ⟨hread, -⟩ | ⟨found, hread, hmap⟩ | ⟨v, hread, -⟩ := section_cases part top
  · rw [hread]
    exact .ok _
  · rw [hread]
    have hnone : ∀ entry ∈ ([] : List (String × Json)),
        ∃ result, definition part entry.1 entry.2 = .ok result := by simp
    refine entries_failsOnly [] hnone fun before key raw after hsplit hbefore => ?_
    obtain rfl : found = before ++ (key, raw) :: after := hsplit
    exact definition_explained (.entry rfl hmap hsections hbefore)
  · rw [hread]
    exact .error missingAttribute_explained

/-- **A defect that stops the reader is one of the value at its place, and the first
one.** The message says where the place is and what is wrong with the value there. -/
theorem schema_defect {data : Json} {fault : Fault} (h : Dump.schema data = .error fault)
    (hload : fault.isLoadFault = true) :
    ∃ place wrong role raw path reason, fault = .defect place wrong ∧
      fault.message? = some (path ++ ": " ++ reason) ∧
      place.Written path ∧ wrong.Written reason ∧
      Visits data place role raw ∧ wrong.Holds role raw := by
  have hexplained : FailsOnly (Explained data) (Dump.schema data) := by
    cases data with
    | obj top =>
      refine .bind (section_explained .documents nofun) fun documents hdocuments => ?_
      exact .bind (section_explained .nested fun _ => ⟨documents, hdocuments⟩) fun _ _ => .ok _
    | _ => exact .error missingAttribute_explained
  obtain ⟨place, wrong, role, raw, rfl, hvisits, hholds⟩ := hexplained fault h hload
  exact ⟨place, wrong, role, raw, place.text, wrong.text, rfl, rfl, place.written_text,
    wrong.written_text, hvisits, hholds⟩

/-- A dump with a defect inside a shape that is the second item of the second field. -/
def blocksDump : Json :=
  .obj [("documentTypeDefMap", .obj [("Post", .obj [("fieldDefs", .arr
    [.obj [("type", .str "string")],
      .obj [("type", .str "list_polymorphic"), ("of", .arr
        [.obj [("type", .str "string")],
          .obj [("type", .str "nested_unnamed"), ("typeDef", .obj [("fieldDefs", .arr
            [.obj [("type", .str "nested")]])])]])]])])])]

/-- What reading this dump stops with. -/
def blocksFault : Fault :=
  .defect ⟨.documents, "Post", [.field 1, .itemAt 1, .shape, .field 0]⟩ (.missing "nestedTypeName")

theorem blocksDump_defect : Dump.schema blocksDump = .error blocksFault ∧
    blocksFault.isLoadFault = true ∧
    blocksFault.message? = some
      "documentTypeDefMap.Post.fieldDefs[1].of[1].typeDef.fieldDefs[0]: missing 'nestedTypeName'" ∧
    ∃ place wrong role raw path reason, blocksFault = .defect place wrong ∧
      blocksFault.message? = some (path ++ ": " ++ reason) ∧
      place.Written path ∧ wrong.Written reason ∧
      Visits blocksDump place role raw ∧ wrong.Holds role raw := by
  have hread : Dump.schema blocksDump = .error blocksFault := by rfl
  exact ⟨hread, rfl, by decide +kernel, schema_defect hread rfl⟩

end Explained

end Dump
end ContentDecl
