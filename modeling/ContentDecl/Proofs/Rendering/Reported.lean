/-
# Which files stop without a report

A fault of the schema has a message; the others say only what a value or a file did
not allow. Rendering the file of a dump stops with a message, unless the bytes are no
UTF-8, a number has too many digits, or somewhere in the dump a value of one type
stands where another type is read or printed.

What is expected is said along the reader: a field and an item are objects whose type
can be looked up, and the member that their kind needs is of the type that is read
there (`ProperField`, `ProperItem`); names are texts, lists are arrays, and on the way
to the label of a document type there are settings. Such a dump is read, or has a
defect that is reported, and what is read is printable. Nothing is said of a file whose
text is not readable (`Json.Readable`).

Key definitions: `ProperField`, `ProperItem`, `ProperDump`.
Key theorems: `field_item_yields`, `schema_yields`, `rendered_or_reported`.
-/
import Mathlib
import ContentDecl.Proofs.Dump.File
import ContentDecl.Proofs.Dump.Form
import ContentDecl.Proofs.Rendering.Parsed

namespace ContentDecl
namespace Dump

open Result TypeScript

/-! ### Values where they are expected -/

mutual

/-- The member that a part is, if it is there, has the type that is read. -/
inductive ProperPart : List (String × Json) → Part → Prop
  | nothing {members} : ProperPart members .nothing
  | value {members key} (h : ∀ v, members.lookup key = some v → v.isText = true) :
    ProperPart members (.value key)
  | elements {members key} (h : ∀ v, members.lookup key = some v → ∃ texts, v = listing texts) :
    ProperPart members (.elements key)
  | shape {members} (h : ∀ v, members.lookup "typeDef" = some v → ∃ type, v = .obj type)
    (hf : ∀ type, members.lookup "typeDef" = some (.obj type) → ProperFields type) :
    ProperPart members .shape
  | item {members} (h : ∀ raw, members.lookup "of" = some raw → ProperItem raw) :
    ProperPart members .item
  | items {members} (h : ∀ v, members.lookup "of" = some v → ∃ raws, v = .arr raws)
    (hi : ∀ raws, members.lookup "of" = some (.arr raws) → ∀ raw ∈ raws, ProperItem raw) :
    ProperPart members .items

/-- An object whose kind of field can be looked up, with the part of this kind. -/
inductive ProperField : Json → Prop
  | mk {members} (ht : ∀ v, members.lookup "type" = some v → v.isKey = true)
    (hp : ∀ tag : FieldTag, members.lookup "type" = some (.str tag.text) →
      ProperPart members tag.part) : ProperField (.obj members)

/-- An object with the part of its kind of item. -/
inductive ProperItem : Json → Prop
  | mk {members} (hp : ∀ tag : ItemTag, members.lookup "type" = some (.str tag.text) →
      ProperPart members tag.part) : ProperItem (.obj members)

/-- The fields of a type, if there are any, are an array of objects. -/
inductive ProperFields : List (String × Json) → Prop
  | mk {members}
    (h : ∀ v, members.lookup "fieldDefs" = some v → v.isTrue = true → ∃ raws, v = .arr raws)
    (hf : ∀ raws, members.lookup "fieldDefs" = some (.arr raws) → ∀ raw ∈ raws, ProperField raw) :
    ProperFields members

end

/-- The members of a definition under a key: its name is a text, its fields and its
computed fields are arrays of objects, and without a description there are settings on
the way to the label of a document type. -/
structure ProperDefinition (part : Section) (key : String) (members : List (String × Json)) :
    Prop where
  name : (effectiveName key members).isText = true
  fields : ProperFields members
  computed : part = .documents → ∀ v, members.lookup "computedFields" = some v →
    v.isTrue = true → ∃ raws, v = .arr raws ∧ ∀ raw ∈ raws, ∃ inner, raw = .obj inner
  label : part = .documents → (Json.member members "description").isTrue = false →
    ∀ name, effectiveName key members = .str name →
      LabelPath ((Json.member members "extensions").orElse (.obj [])) name

/-- The members of a dump: each map, if it is there, is an object of definitions. -/
def ProperDump (members : List (String × Json)) : Prop :=
  ∀ part v, members.lookup (sectionKey part) = some v → v.isTrue = true →
    ∃ found, v = .obj found ∧ ∀ key raw, (key, raw) ∈ found →
      ∃ inner, raw = .obj inner ∧ ProperDefinition part key inner

/-! ### What is read of them -/

/-- A fault that names a place in the dump. -/
abbrev IsLoadFault (fault : Fault) : Prop := fault.isLoadFault = true

/-- What is printed of a part is a text. -/
def Part.Textual : Part → Node → Prop
  | .nothing, _ => True
  | .value _, node => node.value.isText = true
  | .elements _, node => ∃ texts, node.value = listing texts
  | .shape, node => textual.Shape node
  | .item, node => textual.Item node
  | .items, node => textual.ItemGroup node

theorem isText_of_listing {v : Json} (h : ∃ texts, v = listing texts) :
    ∀ w ∈ v.elements?.getD [], w.isText = true := by
  obtain ⟨texts, rfl⟩ := h
  simp [listing, Json.elements?, Json.isText]

end Dump

theorem FieldTag.holding_textual (tag : FieldTag) {node : Node} (h : tag.part.Textual node) :
    textual.Kind (tag.holding node) := by
  cases tag with
  | nested => exact h
  | nestedPolymorphic | enum => exact Dump.isText_of_listing h
  | nestedUnnamed | list | listPolymorphic => exact h
  | _ => trivial

theorem ItemTag.holding_textual (tag : ItemTag) {node : Node} (h : tag.part.Textual node) :
    textual.ItemKind (tag.holding node) := by
  cases tag with
  | nested => exact h
  | enum => exact Dump.isText_of_listing h
  | nestedUnnamed => exact h
  | _ => trivial

namespace Dump

open Result TypeScript

section Inside

variable {members : List (String × Json)} {place : Location}

theorem fieldTag_yields (h : ∀ v, members.lookup "type" = some v → v.isKey = true) :
    Yields IsLoadFault (fun tag => members.lookup "type" = some (.str tag.text))
      (fieldTag place members) := by
  cases htag : fieldTag place members with
  | ok tag => exact fieldTag_eq_ok.mp htag
  | error fault =>
    unfold fieldTag Json.member at htag
    cases hv : members.lookup "type" with
    | none =>
      rw [hv] at htag
      obtain rfl := Except.error.inj htag
      rfl
    | some v =>
      have hkey : v.isKey = true := h v hv
      rw [hv, Option.getD_some] at htag
      split at htag
      · obtain rfl := Except.error.inj htag
        rfl
      · split at htag
        · cases htag
        · obtain rfl := Except.error.inj htag
          rfl
      · rw [if_pos hkey] at htag
        obtain rfl := Except.error.inj htag
        rfl

theorem itemTag_yields : Yields IsLoadFault
    (fun tag => members.lookup "type" = some (.str tag.text)) (itemTag place members) := by
  cases htag : itemTag place members with
  | ok tag => exact itemTag_eq_ok.mp htag
  | error fault =>
    unfold itemTag at htag
    split at htag
    · split at htag
      · cases htag
      · obtain rfl := Except.error.inj htag
        rfl
    · obtain rfl := Except.error.inj htag
      rfl

theorem require_yields (place : Location) (members : List (String × Json)) (key : String) :
    Yields IsLoadFault (fun v => members.lookup key = some v) (require place members key) := by
  unfold require
  cases members.lookup key with
  | none => exact rfl
  | some v => exact rfl

theorem readAll_yields {p : Fault → Prop} {q : Node → Prop}
    {read : Location → Json → Except Fault Node} {step : Nat → Step} : ∀ (index : Nat)
    {raws : List Json}, (∀ raw ∈ raws, ∀ place, Yields p q (read place raw)) →
    Yields p (fun nodes => ∀ node ∈ nodes, q node) (readAll read step place index raws)
  | _, [], _ => nofun
  | index, raw :: rest, h => by
    refine (h raw List.mem_cons_self _).bind fun node hnode => ?_
    have hrest : Yields p (fun nodes => ∀ node ∈ nodes, q node)
        (readAll read step place (index + 1) rest) :=
      readAll_yields (index + 1) fun other hmem => h other (List.mem_cons_of_mem raw hmem)
    exact hrest.bind fun nodes hnodes => List.forall_mem_cons.mpr ⟨hnode, hnodes⟩

theorem fieldsIn_yields (hfields : ProperFields members)
    (ih : ∀ raw : Json, sizeOf raw < sizeOf members → ProperField raw →
      ∀ place, Yields IsLoadFault textual.Field (field place raw)) :
    Yields IsLoadFault textual.Fields (fieldsIn place members) := by
  obtain ⟨harr, hproper⟩ := hfields
  obtain ⟨-, hread⟩ | ⟨raws, hv, hread⟩ | ⟨v, hv, hne, hread⟩ := fieldsIn_cases place members
  · rw [hread]
    trivial
  · have hall : Yields IsLoadFault (fun nodes => ∀ node ∈ nodes, textual.Field node)
        (fieldsIn place members) := by
      rw [hread]
      exact readAll_yields 0 fun raw hmem =>
        ih raw (sizeOf_element_lt hv hmem) (hproper raws hv raw hmem)
    simpa only [← Demand.fields_iff] using hall
  · rw [hread]
    split
    · rename_i htrue
      obtain ⟨raws, rfl⟩ := harr v hv htrue
      exact absurd rfl (hne raws)
    · trivial

theorem itemsIn_yields (hpart : ProperPart members .items)
    (ih : ∀ raw : Json, sizeOf raw < sizeOf members → ProperItem raw →
      ∀ place, Yields IsLoadFault textual.Item (item place raw)) :
    Yields IsLoadFault textual.Items (itemsIn place members) := by
  cases hpart with
  | items harr hproper =>
    obtain ⟨-, hread⟩ | ⟨raws, hv, hread⟩ | ⟨v, hv, hne, hread⟩ := itemsIn_cases place members
    · rw [hread]
      exact rfl
    · have hall : Yields IsLoadFault (fun nodes => ∀ node ∈ nodes, textual.Item node)
          (itemsIn place members) := by
        rw [hread]
        exact readAll_yields 0 fun raw hmem =>
          ih raw (sizeOf_element_lt hv hmem) (hproper raws hv raw hmem)
      simpa only [← Demand.items_iff] using hall
    · obtain ⟨raws, rfl⟩ := harr v hv
      exact absurd rfl (hne raws)

theorem shapeIn_yields (hpart : ProperPart members .shape)
    (ih : ∀ raw : Json, sizeOf raw < sizeOf members → ProperField raw →
      ∀ place, Yields IsLoadFault textual.Field (field place raw)) :
    Yields IsLoadFault textual.Shape (shapeIn place members) := by
  cases hpart with
  | shape hobj hproper =>
    obtain ⟨-, hread⟩ | ⟨type, hv, hread⟩ | ⟨v, hv, hne, hread⟩ := shapeIn_cases place members
    · rw [hread]
      exact rfl
    · rw [hread]
      have hlt := sizeOf_members_lt hv
      exact (fieldsIn_yields (hproper type hv) fun raw h => ih raw (Nat.lt_trans h hlt)).map
        fun _ hfields => hfields
    · obtain ⟨type, rfl⟩ := hobj v hv
      exact absurd rfl (hne type)

/-- The part of an object is read, or it is missing somewhere. -/
theorem readPart_yields {part : Part} (hpart : ProperPart members part)
    (ih : ∀ raw : Json, sizeOf raw < sizeOf members →
      (ProperField raw → ∀ place, Yields IsLoadFault textual.Field (field place raw)) ∧
      (ProperItem raw → ∀ place, Yields IsLoadFault textual.Item (item place raw))) :
    Yields IsLoadFault part.Textual (readPart place members part) := by
  cases part with
  | nothing => trivial
  | value key =>
    cases hpart with
    | value h => exact (require_yields place members key).map fun v hv => h v hv
  | elements key =>
    cases hpart with
    | elements h =>
      have hlist : Yields IsLoadFault (fun v => ∃ texts, v = listing texts)
          (require place members key >>= listOf) := by
        refine (require_yields place members key).bind fun v hv => ?_
        obtain ⟨texts, rfl⟩ := h v hv
        exact ⟨texts, rfl⟩
      exact hlist.map fun v htexts => htexts
  | shape => exact shapeIn_yields hpart fun raw hlt => (ih raw hlt).1
  | item =>
    cases hpart with
    | item h =>
      rw [readPart]
      obtain ⟨-, hread⟩ | ⟨raw, hv, hread⟩ := itemIn_cases place members
      · rw [hread]
        exact rfl
      · rw [hread]
        exact (ih raw (sizeOf_lookup_lt hv)).2 (h raw hv) _
  | items =>
    exact (itemsIn_yields hpart fun raw hlt => (ih raw hlt).2).map fun _ hitems => ⟨trivial, hitems⟩

end Inside

/-- **A proper field and a proper item are read, or a defect in them is reported.** -/
theorem field_item_yields (raw : Json) :
    (ProperField raw → ∀ place, Yields IsLoadFault textual.Field (field place raw)) ∧
    (ProperItem raw → ∀ place, Yields IsLoadFault textual.Item (item place raw)) := by
  induction raw using inside_induction with
  | other raw hobj =>
    refine ⟨fun h => ?_, fun h => ?_⟩
    · cases h
      exact absurd rfl (hobj _)
    · cases h
      exact absurd rfl (hobj _)
  | object members ih =>
    refine ⟨fun h place => ?_, fun h place => ?_⟩
    · cases h with
      | mk ht hp =>
        rw [field_obj]
        refine (fieldTag_yields ht).bind fun tag htag => ?_
        exact (readPart_yields (hp tag htag) ih).map fun part hpart =>
          ⟨trivial, tag.holding_textual hpart⟩
    · cases h with
      | mk hp =>
        rw [item_obj]
        refine itemTag_yields.bind fun tag htag => ?_
        exact (readPart_yields (hp tag htag) ih).map fun part hpart => tag.holding_textual hpart

/-! ### Definitions and dumps -/

theorem computedField_yields {raw : Json} (h : ∃ members, raw = .obj members) (place : Location) :
    Yields IsLoadFault (fun _ => True) (computedField place raw) := by
  obtain ⟨members, rfl⟩ := h
  cases hn : members.lookup "name" with
  | none => simp [computedField, Json.contains?, hn, Yields, IsLoadFault, Fault.isLoadFault]
  | some name =>
    cases ht : members.lookup "type" with
    | none => simp [computedField, Json.contains?, hn, ht, Yields, IsLoadFault,
      Fault.isLoadFault]
    | some type => simp [computedField, Json.contains?, hn, ht, Yields]

theorem computedIn_yields {part : Section} {key : String} {members : List (String × Json)}
    (h : ProperDefinition part key members) (place : Location) :
    Yields IsLoadFault (fun _ => True) (computedIn part place members) := by
  cases part with
  | nested => trivial
  | documents =>
    rw [computedIn]
    obtain ⟨-, hread⟩ | ⟨v, raws, hv, htrue, hraws, hread⟩ | ⟨v, hv, htrue, hnone, hread⟩ :=
      computedFields_cases place members
    · rw [hread]
      trivial
    · obtain ⟨found, rfl, hobj⟩ := h.computed rfl v hv htrue
      obtain rfl : found = raws := Option.some.inj hraws
      have hall : Yields IsLoadFault (fun nodes => ∀ node ∈ nodes, True)
          (computedFields place members) := by
        rw [hread]
        exact readAll_yields 0 fun raw hmem => computedField_yields (hobj raw hmem)
      exact hall.imp fun _ _ => trivial
    · obtain ⟨found, rfl, -⟩ := h.computed rfl v hv htrue
      cases hnone

/-- A proper definition is printable. -/
theorem definition_yields {part : Section} {key : String} {raw : Json}
    (h : ∃ members, raw = .obj members ∧ ProperDefinition part key members) :
    Yields IsLoadFault (fun entry => Printable entry.2) (definition part key raw) := by
  obtain ⟨members, rfl, h⟩ := h
  obtain ⟨name, hname⟩ := eq_str_of_isText h.name
  rw [definition_obj, hname]
  have hfields : Yields IsLoadFault textual.Fields (fieldsIn (.entry part key) members) :=
    fieldsIn_yields h.fields fun raw _ => (field_item_yields raw).1
  refine hfields.bind fun found hfound => (computedIn_yields h _).bind fun computed _ => ?_
  have hprintable : Printable (definitionNode part key members found computed) := by
    cases part with
    | documents =>
      refine ⟨⟨name, congrArg some hname⟩, ?_, ?_⟩
      · rintro _ ⟨⟩
        exact hfound
      · intro s fields computed description extensions hnode hfalse
        obtain ⟨hs, -, -, rfl, rfl⟩ := Node.document.inj hnode
        exact h.label rfl hfalse s hs
    | nested =>
      refine ⟨⟨name, congrArg some hname⟩, ?_, nofun⟩
      rintro _ ⟨⟩
      exact hfound
  exact hprintable

theorem entries_yields {part : Section} : ∀ {registry : Registry} {found : List (String × Json)},
    (∀ node ∈ registry.definitions, Printable node) →
    (∀ key raw, (key, raw) ∈ found → ∃ members, raw = .obj members ∧
      ProperDefinition part key members) →
    Yields IsLoadFault (fun result => ∀ node ∈ Registry.definitions result, Printable node)
      (entries part registry found)
  | registry, [], hregistry, _ => hregistry
  | registry, (key, raw) :: rest, hregistry, h => by
    rw [entries]
    refine (definition_yields (h key raw List.mem_cons_self)).bind fun entry hentry => ?_
    exact entries_yields (Registry.forall_put hentry hregistry) fun key raw hmem =>
      h key raw (List.mem_cons_of_mem _ hmem)

theorem section_yields {members : List (String × Json)} (h : ProperDump members) (part : Section) :
    Yields IsLoadFault (fun registry => ∀ node ∈ Registry.definitions registry, Printable node)
      (section? part members) := by
  have hnone : ∀ node ∈ Registry.definitions [], Printable node := by simp [Registry.definitions]
  obtain ⟨hread, -⟩ | ⟨found, hread, hv⟩ | ⟨v, hread, hv, htrue, hobj⟩ :=
    section_cases part members
  · rw [hread]
    exact hnone
  · rw [hread]
    cases htrue : (Json.obj found).isTrue with
    | false =>
      obtain rfl : found = [] := by simpa [Json.isTrue] using htrue
      exact hnone
    | true =>
      obtain ⟨entries, hentries, hproper⟩ := h part _ hv htrue
      obtain rfl := Json.obj.inj hentries
      exact entries_yields hnone hproper
  · obtain ⟨found, rfl, -⟩ := h part v hv htrue
    exact absurd rfl (hobj found)

/-- **A proper dump is read and printable, or a defect in it is reported.** -/
theorem schema_yields {members : List (String × Json)} (h : ProperDump members) :
    Yields IsLoadFault
      (fun schema => ∀ part, ∀ node ∈ (schema.registry part).definitions, Printable node)
      (Dump.schema (.obj members)) := by
  rw [Dump.schema]
  refine (section_yields h .documents).bind fun documents hdocuments => ?_
  refine (section_yields h .nested).bind fun nested hnested part => ?_
  cases part with
  | documents => exact hdocuments
  | nested => exact hnested

/-- A number in the place of a definition stops the reader without a place. -/
example : Dump.schema (.obj [("nestedTypeDefMap", .obj [("Cta", .int 1)])])
    = .error .missingAttribute := rfl

/-! ### Files -/

/-- A fault that is reported has a message. -/
def IsReported (fault : Fault) : Prop := ∃ message, fault.message? = some message

theorem IsLoadFault.isReported {fault : Fault} (h : IsLoadFault fault) : IsReported fault := by
  cases fault with
  | defect place wrong => exact ⟨_, rfl⟩
  | notJson path problem position => exact ⟨_, rfl⟩
  | notObject path => exact ⟨_, rfl⟩
  | _ => cases h

/-- The module of the dump in a file. -/
def render (path : String) (bytes : ByteArray) (options : Options) : Except Fault String :=
  ofBytes path bytes >>= moduleOf options

/-- A proper dump is rendered, or stops with a message. -/
theorem render_proper {members : List (String × Json)} (h : ProperDump members)
    (options : Options) :
    FailsOnly IsReported (Dump.schema (.obj members) >>= moduleOf options) := by
  have hread := schema_yields h
  refine .bind (fun fault hfault => (hread.failsOnly fault hfault).isReported) fun schema hschema => ?_
  have hprintable := hread.of_ok hschema
  refine moduleOf_failsOnly (fun part node hmem => ?_) fun part node hmem fault hfault => ?_
  · obtain ⟨name, hname⟩ := (hprintable part node hmem).name
    exact ⟨.str name, hname, .inl rfl⟩
  · obtain ⟨⟨field, type, rfl⟩, -⟩ := declaration_reserved (schema_wellPlaced hschema part node hmem)
      (hprintable part node hmem) fault hfault
    exact ⟨_, rfl⟩

/-- **What comes of a file.** Bytes that are no UTF-8 stop without a message. Of a readable
text, a number with too many digits does, too; of every other one the module is rendered or
the fault has a message, if its dump is proper. -/
theorem rendered_or_reported (path : String) (bytes : ByteArray) (options : Options) :
    (String.fromUTF8? bytes = none → render path bytes options = .error .invalidEncoding) ∧
    ∀ text, textOf bytes = .ok text → Json.Readable text →
      (Json.decode text = .error .tooManyDigits →
        render path bytes options = .error .invalidValue) ∧
      (Json.decode text ≠ .error .tooManyDigits →
        (∀ members, Json.decode text = .ok (.obj members) → ProperDump members) →
        (∃ rendered, render path bytes options = .ok rendered) ∨
          ∃ fault, render path bytes options = .error fault ∧ IsReported fault) := by
  refine ⟨fun hbytes => ?_, fun text htext hreadable =>
    ⟨fun hdigits => ?_, fun hdigits hproper => ?_⟩⟩
  · rw [render, ofBytes, textOf, hbytes]
    rfl
  · rw [render, ofBytes, htext, ok_bind, hdigits]
    rfl
  · have hfails : FailsOnly IsReported (render path bytes options) := by
      rw [render, ofBytes, htext, ok_bind]
      cases hdata : Json.decode text with
      | error problem =>
        cases problem with
        | malformed problem position => exact .error ⟨_, rfl⟩
        | tooManyDigits => exact absurd hdata hdigits
        | loneSurrogate => exact absurd hdata hreadable.paired
      | ok data =>
        cases data with
        | obj members => exact render_proper (hproper members hdata) options
        | _ => exact .error ⟨_, rfl⟩
    cases hresult : render path bytes options with
    | ok rendered => exact .inl ⟨rendered, rfl⟩
    | error fault => exact .inr ⟨fault, rfl, hfails fault hresult⟩

/-- A number on the way to the label of a type stops the printer. -/
example : declaration {} (.document (.str "Post") (.group []) (.group []) .null
    (.obj [("stackbit", .int 1)])) = .error .missingAttribute := rfl

/-- A file with a type that has a field. -/
def fieldFile : String :=
  "\x7b\"nestedTypeDefMap\":\x7b\"Cta\":\x7b\"fieldDefs\":[\x7b\"name\":\"link\",\"type\":\"json\"\x7d]\x7d\x7d\x7d"

def fieldDump : List (String × Json) :=
  [("nestedTypeDefMap", .obj [("Cta", .obj [("fieldDefs",
    .arr [.obj [("name", .str "link"), ("type", .str "json")]])])])]

theorem decode_fieldFile :
    Json.decode (Json.unifyLines fieldFile.toList) = .ok (.obj fieldDump) := by
  cbv

theorem fieldDump_proper : ProperDump fieldDump := by
  intro part v hv _
  cases part with
  | documents => cases hv
  | nested =>
    obtain rfl : Json.obj _ = v := Option.some.inj hv
    refine ⟨_, rfl, fun key raw hmem => ?_⟩
    obtain ⟨rfl, rfl⟩ := Prod.mk.inj (List.mem_singleton.mp hmem)
    refine ⟨_, rfl, ⟨rfl, ⟨?_, ?_⟩, nofun, nofun⟩⟩
    · intro v hv _
      obtain rfl : Json.arr _ = v := Option.some.inj hv
      exact ⟨_, rfl⟩
    · intro raws hraws raw hmem
      obtain rfl := Json.arr.inj (Option.some.inj hraws)
      obtain rfl := List.mem_singleton.mp hmem
      refine .mk ?_ fun tag htag => ?_
      · intro v hv
        obtain rfl : Json.str _ = v := Option.some.inj hv
        rfl
      · have htext : "json" = tag.text := Json.str.inj (Option.some.inj htag)
        cases tag <;> first | exact .nothing | exact absurd htext (by decide)

theorem fieldFile_rendered_or_reported :
    (∃ rendered, render "schema.json" fieldFile.toUTF8 {} = .ok rendered) ∨
      ∃ fault, render "schema.json" fieldFile.toUTF8 {} = .error fault ∧ IsReported fault := by
  have hreadable : Json.Readable (Json.unifyLines fieldFile.toList) :=
    .of_decode decode_fieldFile (by decide +kernel)
  refine ((rendered_or_reported "schema.json" fieldFile.toUTF8 {}).2 _ (textOf_toUTF8 _)
    hreadable).2 ?_ ?_
  · rw [decode_fieldFile]
    nofun
  · rw [decode_fieldFile]
    rintro _ ⟨⟩
    exact fieldDump_proper

/-- A byte that is in no UTF-8. -/
def strayByte : ByteArray := ⟨#[0xff]⟩

theorem unreported_files :
    ¬ ∀ path bytes options, ∀ fault, render path bytes options = .error fault → IsReported fault := by
  intro h
  obtain ⟨message, hmessage⟩ := h "schema.json" strayByte {} .invalidEncoding rfl
  cases hmessage

end Dump
end ContentDecl
