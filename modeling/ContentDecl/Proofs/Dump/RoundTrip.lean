/-
# A dump is read back as the schema it was written from

What is asked of a schema to be written: every node is of a kind that belongs in
its place, every value of the type that the node has it of, and every definition
stands under its own name. Reading what was written gives the schema, with the
same keys in the same order and the same nodes, whatever was left out.

The induction is on the node. A part of a field or an item is read from any object
that has the members it was written as, so what else the object has does not
matter; and a definition that is put into a registry without its key comes last.

Key definitions: `TypedPart`, `TypedField`, `TypedItem`, `TypedDefinition`,
`TypedSchema`.
Key theorems: `readPart_written`, `field_written`, `definition_written`,
`schema_ofSchema`.
-/
import ContentDecl.Proofs.Dump.Form
import ContentDecl.Proofs.Dump.Writer
import ContentDecl.Proofs.TypeExpr.Union

namespace ContentDecl

/-- A definition without its key in the registry comes last. -/
theorem Registry.put_of_new {key : Json} {node : Node} : ∀ {registry : Registry},
    (∀ entry ∈ registry, entry.1.agrees key = false) →
    registry.put key node = registry ++ [(key, node)]
  | [], _ => rfl
  | entry :: rest, h => by
    have hentry : entry.1.agrees key = false := h entry List.mem_cons_self
    have hrest : put rest key node = rest ++ [(key, node)] :=
      put_of_new fun other hmem => h other (List.mem_cons_of_mem entry hmem)
    rw [put, if_neg (by simp [hentry]), hrest, List.cons_append]

namespace Dump

open Result
open TypeScript (listing)

/-! ### Schemas that can be written -/

/-- A description: a text, or none. -/
def IsDescription (v : Json) : Prop := v = .null ∨ ∃ s, v = .str s

/-- A head with a name, a requirement that holds or not, and a description. -/
structure TypedHead (head : Head) : Prop where
  name : ∃ s, head.name = .str s
  isRequired : ∃ b, head.isRequired = .bool b
  description : IsDescription head.description

mutual

/-- What a kind of field or item holds: a name, names or options, a shape with its
fields, an item or several. -/
inductive TypedPart : Part → Node → Prop
  | nothing : TypedPart .nothing (.plain .null)
  | value (key s : String) : TypedPart (.value key) (.plain (.str s))
  | elements (key : String) (texts : List String) :
    TypedPart (.elements key) (.plain (listing texts))
  | shape {fields : List Node} (h : ∀ node ∈ fields, TypedField node) :
    TypedPart .shape (.shape (.group fields))
  | item {node : Node} (h : TypedItem node) : TypedPart .item node
  | items {items : List Node} (h : ∀ node ∈ items, TypedItem node) :
    TypedPart .items (.group items)

/-- A field of one of the kinds that holds what its kind needs. -/
inductive TypedField : Node → Prop
  | mk {head : Head} (tag : FieldTag) {part : Node} (hh : TypedHead head)
    (hp : TypedPart tag.part part) : TypedField (.field head (tag.holding part))

/-- An item of one of the kinds that holds what its kind needs. -/
inductive TypedItem : Node → Prop
  | mk (tag : ItemTag) {part : Node} (hp : TypedPart tag.part part) :
    TypedItem (.item (tag.holding part))

end

/-- A computed field with a name, a type and a description. -/
def TypedComputed (node : Node) : Prop :=
  ∃ name type description, node = .computed (.str name) (.str type) description ∧
    IsDescription description

/-- A definition of a section with the given name. -/
inductive TypedDefinition : Section → String → Node → Prop
  | document {name : String} {fields computed : List Node} {description : Json}
    {extensions : List (String × Json)} (hf : ∀ node ∈ fields, TypedField node)
    (hc : ∀ node ∈ computed, TypedComputed node) (hd : IsDescription description) :
    TypedDefinition .documents name
      (.document (.str name) (.group fields) (.group computed) description (.obj extensions))
  | nestedType {name : String} {fields : List Node} {description : Json}
    {extensions : List (String × Json)} (hf : ∀ node ∈ fields, TypedField node)
    (hd : IsDescription description) :
    TypedDefinition .nested name
      (.nestedType (.str name) (.group fields) description (.obj extensions))

/-- A schema whose definitions stand under their names, no two of a section under
the same one. -/
structure TypedSchema (schema : Schema) : Prop where
  keys : ∀ part, (schema.registry part).keys.Nodup
  entries : ∀ part, ∀ entry ∈ schema.registry part,
    ∃ name, entry.1 = .str name ∧ TypedDefinition part name entry.2

variable {omits : Omission} {place : Location} {members : List (String × Json)}

/-! ### Members that may be left out -/

/-- A member that is left out has the value that its absence says. -/
theorem getD_written {key : String} {v absent : Json} {isDefault : Bool}
    (hv : isDefault = true → v = absent)
    (h : members.lookup key = (omits.member place key v isDefault).lookup key) :
    (members.lookup key).getD absent = v := by
  rw [h]
  obtain hsome | ⟨hnone, hdefault⟩ := lookup_member omits place key v isDefault
  · rw [hsome, Option.getD_some]
  · rw [hnone, Option.getD_none, hv hdefault]

theorem description_written {v : Json} (hv : IsDescription v)
    (h : members.lookup "description" = (omits.description place v).lookup "description") :
    Json.member members "description" = v := by
  refine getD_written (fun hdefault => ?_) h
  rcases hv with rfl | ⟨s, rfl⟩
  · rfl
  · cases hdefault

/-- The head is read from an object that has the members of the head. -/
theorem head_written {head : Head} (hh : TypedHead head)
    (h : ∀ key ∈ ["name", "isRequired", "description"],
      members.lookup key = (headMembers omits place head).lookup key) :
    Dump.head members = head := by
  obtain ⟨name, isRequired, description⟩ := head
  obtain ⟨⟨s, rfl⟩, ⟨b, rfl⟩, hd⟩ := hh
  -- Each of the three is found where it was written, for the others have other keys.
  have hname := h "name" (by simp)
  have hrequired := h "isRequired" (by simp)
  have hdescription := h "description" (by simp)
  simp only [headMembers, Omission.description, List.lookup_append, lookup_member_ne, ne_eq,
    String.reduceEq, not_false_eq_true, Option.or_none, Option.none_or] at hname hrequired hdescription
  have hname : (members.lookup "name").getD (.str "") = .str s :=
    getD_written (fun hdefault => by simpa [Json.isTrue] using hdefault) hname
  have hrequired : (members.lookup "isRequired").getD (.bool false) = .bool b :=
    getD_written (fun hdefault => by simpa [Json.isTrue] using hdefault) hrequired
  have hdescription : Json.member members "description" = description :=
    description_written hd hdescription
  have hagree : ∀ v? : Option Json,
      (v?.getD .null).isTrue = (v?.getD (.bool false)).isTrue := by
    intro v?
    cases v? <;> rfl
  have htrue : (Json.member members "isRequired").isTrue = b := by
    rw [Json.member, hagree, hrequired]
    rfl
  rw [Dump.head, hname, htrue, hdescription]

/-! ### Lists -/

/-- Definitions are read back if each of them is. -/
theorem readAll_writeAll {read : Location → Json → Except Fault Node}
    {write : Location → Node → Json} (step : Nat → Step) (place : Location) :
    ∀ (index : Nat) (nodes : List Node),
      (∀ node ∈ nodes, ∀ place, read place (write place node) = .ok node) →
      readAll read step place index (writeAll write step place index nodes) = .ok nodes
  | _, [], _ => rfl
  | index, node :: rest, h => by
    have hnode := h node List.mem_cons_self (place.down (step index))
    have hrest := readAll_writeAll step place (index + 1) rest fun other hmem =>
      h other (List.mem_cons_of_mem _ hmem)
    exact readAll_cons_eq_ok.mpr ⟨node, hnode, rest, hrest, rfl⟩

/-- The elements of a list are found, or the list was left out and has none. -/
theorem lookup_list (omits : Omission) (place : Location) (key : String) (raws : List Json) :
    (omits.list place key raws).lookup key = some (.arr raws) ∨
      (omits.list place key raws).lookup key = none ∧ raws = [] := by
  obtain hsome | ⟨hnone, hdefault⟩ := lookup_member omits place key (.arr raws) raws.isEmpty
  · exact .inl hsome
  · exact .inr ⟨hnone, List.isEmpty_iff.mp hdefault⟩

/-- Fields are read from an object that has them as they were written. -/
theorem fieldsIn_written {nodes : List Node}
    (hnodes : ∀ node ∈ nodes, ∀ place, field place (fieldObject omits place node) = .ok node)
    (h : members.lookup "fieldDefs" =
      (omits.list place "fieldDefs" (fieldGroupObjects omits place (.group nodes))).lookup
        "fieldDefs") :
    fieldsIn place members = .ok nodes := by
  have hread := readAll_writeAll .field place 0 nodes hnodes
  rw [fieldGroupObjects, fieldObjects_eq_writeAll] at h
  rw [fieldsIn_eq, h]
  obtain hsome | ⟨hnone, hnil⟩ := lookup_list omits place "fieldDefs"
    (writeAll (fieldObject omits) .field place 0 nodes)
  · rw [hsome]
    exact (fieldsFrom_eq_readAll place 0 _).trans hread
  · rw [hnone]
    rwa [hnil] at hread

/-- A computed field is read back. -/
theorem computedField_written (omits : Omission) {node : Node} (h : TypedComputed node)
    (place : Location) :
    computedField place (computedObject omits place node) = .ok node := by
  obtain ⟨name, type, description, rfl, hd⟩ := h
  have hdescription : ((omits.description place description).lookup "description").getD .null
      = description := description_written hd rfl
  rw [computedObject]
  simp [computedField, Json.contains?, Json.member, List.lookup_cons, hdescription]

theorem orElse_arr (raws : List Json) : (Json.arr raws).orElse (.arr []) = .arr raws := by
  cases raws <;> rfl

theorem orElse_obj (members : List (String × Json)) :
    (Json.obj members).orElse (.obj []) = .obj members := by
  cases members <;> rfl

/-- The computed fields likewise. -/
theorem computedFields_written {nodes : List Node} (hnodes : ∀ node ∈ nodes, TypedComputed node)
    (h : members.lookup "computedFields" =
      (omits.list place "computedFields" (computedGroupObjects omits place (.group nodes))).lookup
        "computedFields") :
    computedFields place members = .ok nodes := by
  have hread := readAll_writeAll .computed place 0 nodes
    fun node hmem place => computedField_written omits (hnodes node hmem) place
  rw [computedGroupObjects] at h
  unfold computedFields Json.member
  rw [h]
  obtain hsome | ⟨hnone, hnil⟩ := lookup_list omits place "computedFields"
    (writeAll (computedObject omits) .computed place 0 nodes)
  · rw [hsome, Option.getD_some, orElse_arr]
    exact (computedFrom_eq_readAll place 0 _).trans hread
  · rw [hnone]
    rw [hnil] at hread
    exact hread

/-! ### Fields and items -/

/-- What a part was written as is found in its object, and a head behind it too. -/
theorem lookup_field (omits : Omission) (place : Location) (tag : FieldTag) (part : Node)
    (word : Json) (rest : List (String × Json)) :
    (∀ entry ∈ partMembers omits place part tag.part,
      (("type", word) :: (partMembers omits place part tag.part ++ rest)).lookup entry.1
        = some entry.2) ∧
    ∀ key ∈ ["name", "isRequired", "description"],
      (("type", word) :: (partMembers omits place part tag.part ++ rest)).lookup key
        = rest.lookup key := by
  cases tag <;> simp [FieldTag.part, partMembers, List.lookup_cons]

theorem lookup_item (omits : Omission) (place : Location) (tag : ItemTag) (part : Node)
    (word : Json) :
    ∀ entry ∈ partMembers omits place part tag.part,
      (("type", word) :: partMembers omits place part tag.part).lookup entry.1 = some entry.2 := by
  cases tag <;> simp [ItemTag.part, partMembers, List.lookup_cons]

mutual

/-- A part is read from any object that has the members that it was written as. -/
theorem readPart_written : ∀ {part : Part} {node : Node}, TypedPart part node →
    ∀ (place : Location) (members : List (String × Json)),
      (∀ entry ∈ partMembers omits place node part, members.lookup entry.1 = some entry.2) →
      readPart place members part = .ok node
  | _, _, .nothing, _, _, _ => rfl
  | _, _, .value key s, place, members, h => by
    have hv : members.lookup key = some (.str s) := h _ List.mem_cons_self
    rw [readPart, require_ok_iff.mpr hv]
    rfl
  | _, _, .elements key texts, place, members, h => by
    have hv : members.lookup key = some (listing texts) := h _ List.mem_cons_self
    rw [readPart, require_ok_iff.mpr hv]
    rfl
  | _, _, @TypedPart.shape fields hf, place, members, h => by
    have hv := h _ List.mem_cons_self
    have hread := @fieldsIn_written omits (place.down .shape) _ fields
      (fun node hmem place => field_written (hf node hmem) place) rfl
    rw [readPart, shapeIn_eq, hv, shapeObject]
    simp only [hread, map_ok, Function.comp_apply]
  | _, _, .item hi, place, members, h => by
    have hv := h _ List.mem_cons_self
    rw [readPart, itemIn_eq, hv]
    exact item_written hi (place.down .item)
  | _, _, @TypedPart.items items hi, place, members, h => by
    have hv := h _ List.mem_cons_self
    have hread := readAll_writeAll .itemAt place 0 items
      fun node hmem place => item_written (hi node hmem) place
    rw [readPart, itemsIn_eq, hv, itemGroupObjects, itemObjects_eq_writeAll]
    simp only [itemsFrom_eq_readAll, hread, map_ok]

/-- A field is read back. -/
theorem field_written : ∀ {node : Node}, TypedField node → ∀ place : Location,
    field place (fieldObject omits place node) = .ok node
  | _, @TypedField.mk head tag part hh hp, place => by
    rw [fieldObject, kindMembers_holding, tag.tag_holding, Option.elim_some, field_obj]
    obtain ⟨hpart, hhead⟩ := lookup_field omits place tag part (.str tag.text)
      (headMembers omits place head)
    rw [fieldTag_eq_ok.mpr List.lookup_cons_self, ok_bind, readPart_written hp place _ hpart,
      head_written hh hhead, map_ok]

/-- An item is read back. -/
theorem item_written : ∀ {node : Node}, TypedItem node → ∀ place : Location,
    item place (itemObject omits place node) = .ok node
  | _, @TypedItem.mk tag part hp, place => by
    rw [itemObject, itemKindMembers_holding, tag.tag_holding, item_obj]
    have hpart := readPart_written hp place _ (lookup_item omits place tag part (.str tag.text))
    rw [itemTag_eq_ok.mpr List.lookup_cons_self, ok_bind, hpart, map_ok]

end

/-! ### Definitions and registries -/

/-- What the definitions of both sections have is read from an object that has it as
it was written. -/
theorem common_written {part : Section} {name : String} {fields : List Node} {description : Json}
    {extensions : List (String × Json)} (hf : ∀ node ∈ fields, TypedField node)
    (hd : IsDescription description)
    (h : ∀ key ∈ ["name", "fieldDefs", "description", "extensions"], members.lookup key =
      (commonMembers omits part name (.str name) (.group fields) description
        (.obj extensions)).lookup key) :
    effectiveName name members = .str name ∧
    fieldsIn (.entry part name) members = .ok fields ∧
    Json.member members "description" = description ∧
    (Json.member members "extensions").orElse (.obj []) = .obj extensions := by
  have hname := h "name" (by simp)
  have hfields := h "fieldDefs" (by simp)
  have hdescription := h "description" (by simp)
  have hextensions := h "extensions" (by simp)
  simp only [commonMembers, Omission.description, Omission.list, List.lookup_append,
    lookup_member_ne, ne_eq, String.reduceEq, not_false_eq_true, Option.or_none, Option.none_or]
    at hname hfields hdescription hextensions
  refine ⟨getD_written (fun _ => rfl) hname, ?_, description_written hd hdescription, ?_⟩
  · exact fieldsIn_written (fun node hmem place => field_written (hf node hmem) place) hfields
  · have hfound : (members.lookup "extensions").getD (.obj []) = .obj extensions :=
      getD_written (fun hdefault => by simpa [Json.isTrue] using hdefault) hextensions
    have hagree : ∀ v? : Option Json,
        (v?.getD .null).orElse (.obj []) = (v?.getD (.obj [])).orElse (.obj []) := by
      intro v?
      cases v? <;> rfl
    rw [Json.member, hagree, hfound, orElse_obj]

/-- The computed fields of a document type stand before what every definition has. -/
theorem lookup_document (omits : Omission) (place : Location) (raws : List Json) (name : String)
    (fields : Node) (description extensions : Json) :
    let common := commonMembers omits .documents name (.str name) fields description extensions
    (omits.list place "computedFields" raws ++ common).lookup "computedFields"
        = (omits.list place "computedFields" raws).lookup "computedFields" ∧
      ∀ key ∈ ["name", "fieldDefs", "description", "extensions"],
        (omits.list place "computedFields" raws ++ common).lookup key = common.lookup key := by
  simp [commonMembers, Omission.description, Omission.list, List.lookup_append, lookup_member_ne]

/-- A definition is read back under its name. -/
theorem definition_written {part : Section} {name : String} {node : Node}
    (h : TypedDefinition part name node) :
    definition part name (definitionObject omits part name node) = .ok (.str name, node) := by
  cases h with
  | @document _ fields computed description extensions hf hc hd =>
    rw [definitionObject, definition_eq_ok]
    obtain ⟨hown, hcommon⟩ := lookup_document omits (.entry .documents name)
      (computedGroupObjects omits (.entry .documents name) (.group computed)) name (.group fields)
      description (.obj extensions)
    obtain ⟨hname, hfields, hdescription, hextensions⟩ := common_written hf hd hcommon
    refine ⟨fields, hfields, computed, computedFields_written hc hown, ?_, ?_⟩
    · rw [hname]
      rfl
    · rw [definitionNode, hname, hdescription, hextensions]
  | @nestedType _ fields description extensions hf hd =>
    rw [definitionObject, definition_eq_ok]
    obtain ⟨hname, hfields, hdescription, hextensions⟩ :=
      @common_written omits _ .nested _ _ _ extensions hf hd fun _ _ => rfl
    refine ⟨fields, hfields, [], rfl, ?_, ?_⟩
    · rw [hname]
      rfl
    · rw [definitionNode, hname, hdescription, hextensions]

/-- Definitions that are written under new names are read back behind those that are
there. -/
theorem entries_written {part : Section} : ∀ {found rest : Registry},
    (Registry.keys (found ++ rest)).Nodup → (∀ entry ∈ found ++ rest,
      ∃ name, entry.1 = .str name ∧ TypedDefinition part name entry.2) →
    entries part found (rest.map fun entry =>
      (entry.1.text, definitionObject omits part entry.1.text entry.2)) = .ok (found ++ rest)
  | found, [], _, _ => by
    rw [List.append_nil]
    rfl
  | found, (key, node) :: rest, hkeys, h => by
    obtain ⟨name, hname, hnode⟩ := h (key, node) (by simp)
    obtain rfl : key = .str name := hname
    have hnew : ∀ entry ∈ found, entry.1.agrees (.str name) = false := by
      intro entry hmem
      obtain ⟨other, hother, -⟩ := h entry (List.mem_append_left _ hmem)
      have hne : entry.1 ≠ .str name := by
        intro heq
        rw [Registry.keys, List.map_append, List.nodup_append] at hkeys
        exact hkeys.2.2 entry.1 (List.mem_map_of_mem hmem) (.str name) (by simp) heq
      rw [hother] at hne ⊢
      simpa [Json.agrees] using hne
    have hread : definition part name (definitionObject omits part name node)
        = .ok (.str name, node) := definition_written hnode
    have hput : Registry.put found (.str name) node = found ++ [(.str name, node)] :=
      Registry.put_of_new hnew
    rw [List.append_cons] at hkeys h
    rw [List.map_cons, Json.text, entries, hread, ok_bind, List.append_cons]
    simp only [hput]
    exact entries_written hkeys h

theorem section_written {part : Section} {schema : Schema} (h : TypedSchema schema)
    (hv : members.lookup (sectionKey part) =
      some (registryObject omits part (schema.registry part))) : section? part members =
      .ok (schema.registry part) := by
  unfold section? Json.member
  rw [hv, Option.getD_some, registryObject, orElse_obj]
  exact @entries_written omits part [] _ (h.keys part) (h.entries part)

/-- **A schema that was written is read back**, with every definition under its key
and in its place, whatever members were left out. -/
theorem schema_ofSchema (omits : Omission) {schema : Schema} (h : TypedSchema schema) :
    Dump.schema (ofSchema omits schema) = .ok schema := by
  have hread : ∀ part, section? part
      [(sectionKey .documents, registryObject omits .documents schema.documents),
        (sectionKey .nested, registryObject omits .nested schema.nested)]
      = .ok (schema.registry part) := by
    intro part
    refine @section_written omits _ part schema h ?_
    cases part <;> rfl
  rw [ofSchema, Dump.schema, hread .documents, ok_bind, hread .nested, ok_bind]
  rfl

/-- A schema with a document type whose list holds options, a shape and references,
and a nested type that is described. -/
def pageSchema : Schema :=
  { documents := [(.str "Page", .document (.str "Page")
      (.group
        [.field { name := .str "blocks", isRequired := .bool true }
          (.listPolymorphic (.group
            [.item (.enum (listing ["a", "b"])),
              .item (.nestedUnnamed (.shape (.group
                [.field { description := .str "" } (.referencePolymorphic (listing ["Page"]))]))),
              .item (.reference (.str "Page"))])),
          .field { name := .str "seo" } (.nestedUnnamed (.shape (.group [])))])
      (.group [.computed (.str "url") (.str "string") .null])
      .null (.obj [("stackbit", .obj [])]))]
    nested := [(.str "Cta", .nestedType (.str "Cta") (.group []) (.str "A button") (.obj []))] }

theorem pageSchema_read : TypedSchema pageSchema ∧
    ∀ omits, Dump.schema (ofSchema omits pageSchema) = .ok pageSchema := by
  have hreferences : TypedField (.field { description := .str "" }
      (.referencePolymorphic (listing ["Page"]))) :=
    .mk .referencePolymorphic ⟨⟨_, rfl⟩, ⟨_, rfl⟩, .inr ⟨_, rfl⟩⟩ (.elements _ _)
  have hshape : TypedItem (.item (.nestedUnnamed (.shape (.group
      [.field { description := .str "" } (.referencePolymorphic (listing ["Page"]))])))) :=
    .mk .nestedUnnamed (.shape (by simpa using hreferences))
  have henum : TypedItem (.item (.enum (listing ["a", "b"]))) := .mk .enum (.elements _ _)
  have hreference : TypedItem (.item (.reference (.str "Page"))) := .mk .reference (.value _ _)
  have hblocks := @TypedField.mk { name := .str "blocks", isRequired := .bool true }
    .listPolymorphic _ ⟨⟨_, rfl⟩, ⟨_, rfl⟩, .inl rfl⟩
    (@TypedPart.items [_, _, _] (by simpa using ⟨henum, hshape, hreference⟩))
  have hseo := @TypedField.mk { name := .str "seo" } .nestedUnnamed _
    ⟨⟨_, rfl⟩, ⟨_, rfl⟩, .inl rfl⟩ (@TypedPart.shape [] nofun)
  have hurl : TypedComputed (.computed (.str "url") (.str "string") .null) :=
    ⟨_, _, _, rfl, .inl rfl⟩
  have htyped : TypedSchema pageSchema := by
    constructor
    · intro part
      cases part <;> simp [Schema.registry, pageSchema, Registry.keys]
    · intro part entry hmem
      cases part with
      | documents =>
        obtain rfl := List.mem_singleton.mp hmem
        refine ⟨_, rfl, .document ?_ ?_ (.inl rfl)⟩
        · simpa using ⟨hblocks, hseo⟩
        · simpa using hurl
      | nested =>
        obtain rfl := List.mem_singleton.mp hmem
        exact ⟨_, rfl, .nestedType nofun (.inr ⟨_, rfl⟩)⟩
  exact ⟨htyped, fun omits => schema_ofSchema omits htyped⟩

end Dump
end ContentDecl
