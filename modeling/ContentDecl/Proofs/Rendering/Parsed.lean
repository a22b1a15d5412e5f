/-
# Models that are read from a dump are rendered

The reader and the printer have a table of kinds each, and the tables agree: of a
model that was read from a dump, no node lacks a type expression, whatever its
names, options and extensions are. If these are texts where texts are printed, and
the extensions are objects where a label is looked for, the module is rendered,
unless a computed field has the name of the type field.

Nothing is asked of the names of fields and of what computed fields say: these
are printed whatever they are.

Key definitions: `LabelPath`, `Printable`, `Clashes`.
Key theorems: `declaration_failsOnly`, `moduleOf_parsed`.
-/
import ContentDecl.Proofs.Rendering.Module

namespace ContentDecl
namespace Json

/-- A value that can hold settings: an object, or one that counts as absent. -/
def HoldsSettings (v : Json) : Prop := v.isTrue = true → ∃ members, v = .obj members

/-- The setting of a name, null if there is none. -/
def setting (v : Json) (name : String) : Json :=
  match v with
  | obj members => member members name
  | _ => null

end Json

namespace TypeScript

open Result

/-- On the way to the label under `stackbit.fields` there are only settings. -/
structure LabelPath (extensions : Json) (name : String) : Prop where
  root : extensions.HoldsSettings
  stackbit : (extensions.setting "stackbit").HoldsSettings
  fields : ((extensions.setting "stackbit").setting "fields").HoldsSettings
  entry : (((extensions.setting "stackbit").setting "fields").setting name).HoldsSettings

/-- A definition whose name, nested names and options are texts, with a comment
or a way to a label. -/
structure Printable (node : Node) : Prop where
  name : ∃ s, node.name? = some (.str s)
  fields : ∀ fields, node.fields? = some fields → textual.FieldGroup fields
  label : ∀ name fields computed description extensions,
    node = .document (.str name) fields computed description extensions →
    description.isTrue = false → LabelPath extensions name

/-- A document type with a computed field of the name of the type field. -/
inductive Clashes (typeField : Json) : Node → Prop
  | mk {name description extensions fieldName : Json} {fields field : Node} {computed : List Node}
    (hmem : field ∈ computed) (hname : field.name? = some fieldName)
    (heq : fieldName.equals typeField = true) :
    Clashes typeField (.document name fields (.group computed) description extensions)

variable {p : Fault → Prop} {typeField : Json} {options : Options}

/-! ### Lines -/

theorem declaredLines_failsOnly (typeField : Json) : ∀ {nodes : List Node},
    wellPlaced.Fields nodes → (∀ node ∈ nodes, FailsOnly p (fieldLine node)) →
    FailsOnly p (declaredLines typeField nodes)
  | [], _, _ => .ok _
  | .field head kind :: rest, ⟨_, hrest⟩, h => by
    have hlines := declaredLines_failsOnly typeField hrest fun node hmem =>
      h node (List.mem_cons_of_mem _ hmem)
    simp only [declaredLines, Node.name?]
    split
    · exact hlines
    · exact .bind (h _ List.mem_cons_self) fun _ _ => .bind hlines fun _ _ => .ok _

theorem computedLine_failsOnly {typeName name type description : Json}
    (h : name.equals typeField = true → p (.reservedName name typeName)) :
    FailsOnly p (computedLine typeField typeName (.computed name type description)) := by
  simp only [computedLine, Node.name?]
  split
  · exact .error (h ‹_›)
  · exact .ok _

theorem computedLine_of_equals {typeName name : Json} {node : Node} (hname : node.name? = some name)
    (heq : name.equals typeField = true) :
    computedLine typeField typeName node = .error (.reservedName name typeName) := by
  simp [computedLine, hname, heq]

/-- The lines of a definition in its place stop with a fault of a field or with a
clash. -/
theorem declarationLines_failsOnly {part : Section} {node : Node} (hw : WellPlaced part node)
    (hfields : ∀ fields, node.fields? = some (.group fields) →
      ∀ field ∈ fields, FailsOnly p (fieldLine field))
    (hclash : Clashes typeField node → ∀ field type, p (.reservedName field type)) :
    FailsOnly p (declarationLines typeField node) := by
  cases hw with
  | @document found computed name description extensions hf hc he =>
    have hdeclared := declaredLines_failsOnly (p := p) typeField hf (hfields found rfl)
    simp only [declarationLines, Node.fields?, nodesOf, Node.members?, ok_bind]
    refine .bind hdeclared fun declared _ => .bind (.mapM fun node hmem => ?_) fun _ _ => .ok _
    obtain ⟨name, type, description, rfl⟩ := hc node hmem
    exact computedLine_failsOnly fun heq => hclash (.mk hmem rfl heq) _ _
  | @nestedType found name description extensions hf =>
    have hdeclared := declaredLines_failsOnly (p := p) typeField hf (hfields found rfl)
    simp only [declarationLines, Node.fields?, nodesOf, Node.members?, ok_bind]
    exact .bind hdeclared fun declared _ => .ok _

theorem declaration_failsOnly {part : Section} {node : Node} (hw : WellPlaced part node)
    (hfields : ∀ fields, node.fields? = some (.group fields) →
      ∀ field ∈ fields, FailsOnly p (fieldLine field))
    (hclash : Clashes options.typeFieldName node → ∀ field type, p (.reservedName field type))
    (hcomment : FailsOnly p (definitionComment node)) : FailsOnly p (declaration options node) :=
  .bind (declarationLines_failsOnly hw hfields hclash) fun _ _ =>
    .bind hcomment fun _ _ => .ok _

/-- A definition with a clash is not declared. -/
theorem Clashes.declaration_ne_ok {node : Node} (h : Clashes options.typeFieldName node)
    (text : String) : declaration options node ≠ .ok text := by
  intro hok
  obtain ⟨hmem, hname, heq⟩ := h
  obtain ⟨lines, hlines, -⟩ := bind_eq_ok.mp hok
  obtain ⟨fields, -, hlines⟩ := bind_eq_ok.mp hlines
  obtain ⟨declared, -, hlines⟩ := bind_eq_ok.mp hlines
  simp only [nodesOf, Node.members?, ok_bind] at hlines
  obtain ⟨computed, hcomputed, -⟩ := bind_eq_ok.mp hlines
  obtain ⟨line, -, hline⟩ := exists_mem_of_mapM hcomputed _ hmem
  rw [computedLine_of_equals hname heq] at hline
  cases hline

/-! ### Comments -/

theorem membersOf_known (v : Json) : FailsOnly Fault.OfKnownKind (membersOf v) := by
  unfold membersOf
  split
  · exact .ok _
  · exact .error nofun

theorem memberAt_known (members : List (String × Json)) (key : Json) :
    FailsOnly Fault.OfKnownKind (memberAt members key) := by
  unfold memberAt
  split
  · exact .error nofun
  · split <;> exact .ok _

theorem extensionLabel_known (extensions typeName : Json) :
    FailsOnly Fault.OfKnownKind (extensionLabel extensions typeName) := by
  cases extensions with
  | obj members =>
    simp only [extensionLabel, ok_bind]
    exact .bind (membersOf_known _) fun stackbit _ => .bind (membersOf_known _) fun fields _ =>
      .bind (memberAt_known fields typeName) fun entry _ =>
        .bind (membersOf_known entry) fun _ _ => .ok _
  | _ => exact .error nofun

theorem definitionComment_known {part : Section} {node : Node} (hw : WellPlaced part node) :
    FailsOnly Fault.OfKnownKind (definitionComment node) := by
  cases hw with
  | @document found computed name description extensions hf hc he =>
    simp only [definitionComment]
    split
    · exact .ok _
    · exact extensionLabel_known extensions name
  | nestedType => exact .ok _

/-- What holds settings has them as members. -/
theorem membersOf_eq_ok {v : Json} (h : v.HoldsSettings) :
    ∃ members, membersOf v = .ok members ∧ ∀ name, Json.member members name = v.setting name := by
  unfold membersOf Json.orElse
  cases htrue : v.isTrue with
  | true =>
    obtain ⟨members, rfl⟩ := h htrue
    exact ⟨members, rfl, fun _ => rfl⟩
  | false =>
    refine ⟨[], rfl, fun name => ?_⟩
    cases v with
    | obj members =>
      obtain rfl : members = [] := by simpa [Json.isTrue] using htrue
      rfl
    | _ => rfl

theorem extensionLabel_eq_ok {extensions : Json} {name : String}
    (he : extensions.isTrue = true ∨ extensions = .obj []) (h : LabelPath extensions name) :
    ∃ label, extensionLabel extensions (.str name) = .ok label := by
  obtain ⟨outer, rfl⟩ : ∃ members, extensions = .obj members := by
    rcases he with he | rfl
    · exact h.root he
    · exact ⟨[], rfl⟩
  obtain ⟨stackbit, hstackbit, hfields⟩ := membersOf_eq_ok h.stackbit
  obtain ⟨fields, hentries, hentry⟩ := membersOf_eq_ok h.fields
  obtain ⟨settings, hsettings, -⟩ := membersOf_eq_ok h.entry
  refine ⟨Json.member settings "label", ?_⟩
  simp only [Json.setting] at hstackbit
  simp only [extensionLabel, ok_bind, hstackbit, hfields, hentries, memberAt, Json.isKey]
  simp [hentry, hsettings, pure, Except.pure]

/-- The comment before a printable definition is found. -/
theorem definitionComment_eq_ok {part : Section} {node : Node} (hw : WellPlaced part node)
    (h : Printable node) : ∃ comment, definitionComment node = .ok comment := by
  cases hw with
  | @document found computed name description extensions hf hc he =>
    obtain ⟨s, hs⟩ := h.name
    obtain rfl : name = .str s := Option.some.inj hs
    cases htrue : description.isTrue with
    | true => exact ⟨description, by simp [definitionComment, htrue]⟩
    | false =>
      obtain ⟨label, hlabel⟩ := extensionLabel_eq_ok he (h.label _ _ _ _ _ rfl htrue)
      exact ⟨label, by simp [definitionComment, htrue, hlabel]⟩
  | nestedType => exact ⟨_, rfl⟩

/-! ### Modules -/

/-- A definition in its place fails by a value or by a clash. -/
theorem declaration_known {part : Section} {node : Node} (hw : WellPlaced part node) :
    FailsOnly Fault.OfKnownKind (declaration options node) := by
  refine declaration_failsOnly hw (fun fields h field hmem => ?_) (fun _ _ _ => nofun)
    (definitionComment_known hw)
  exact fieldLine_known ((Demand.fields_iff _ _).mp (hw.fields h) field hmem)

/-- A printable definition fails by a clash only. -/
theorem declaration_reserved {part : Section} {node : Node} (hw : WellPlaced part node)
    (hp : Printable node) :
    FailsOnly (fun fault => (∃ field type, fault = .reservedName field type) ∧
      Clashes options.typeFieldName node) (declaration options node) := by
  refine declaration_failsOnly hw (fun fields h field hmem => ?_)
    (fun hclash field type => ⟨⟨field, type, rfl⟩, hclash⟩) ?_
  · have hfield := (Demand.fields_iff _ _).mp (hw.fields h) field hmem
    have htext := (Demand.fields_iff _ _).mp (hp.fields _ h) field hmem
    obtain ⟨line, hline⟩ := fieldLine_text hfield htext
    rw [hline]
    exact .ok line
  · obtain ⟨comment, hcomment⟩ := definitionComment_eq_ok hw hp
    rw [hcomment]
    exact .ok comment

/-- A nested type has no computed fields. -/
theorem Clashes.documents {part : Section} {node : Node} (hw : WellPlaced part node)
    (h : Clashes typeField node) : part = .documents := by
  cases h
  cases hw
  rfl

/-- **The model of a dump is rendered.** No node of it lacks a type expression; and
if its definitions are printable, then the module fails only by a reserved name,
and does so exactly if a document type has a computed field of this name. -/
theorem moduleOf_parsed {data : Json} {schema : Schema} (h : Dump.schema data = .ok schema)
    (options : Options) :
    (∀ kind className, moduleOf options schema ≠ .error (.unhandledKind kind className)) ∧
    ((∀ part, ∀ node ∈ (schema.registry part).definitions, Printable node) →
      ((∃ text, moduleOf options schema = .ok text) ∨
        ∃ field type, moduleOf options schema = .error (.reservedName field type)) ∧
      ((∃ field type, moduleOf options schema = .error (.reservedName field type)) ↔
        ∃ node ∈ schema.documents.definitions, Clashes options.typeFieldName node)) := by
  have hw := Dump.schema_wellPlaced h
  constructor
  · have hknown : FailsOnly Fault.OfKnownKind (moduleOf options schema) := by
      refine moduleOf_failsOnly (fun part node hmem => ?_) fun part node hmem =>
        declaration_known (hw part node hmem)
      obtain ⟨name, hname⟩ := (hw part node hmem).exists_name
      exact ⟨name, hname, .inr nofun⟩
    exact fun kind className hfault => hknown _ hfault kind className rfl
  · intro hprint
    have hreserved : FailsOnly (fun fault => (∃ field type, fault = .reservedName field type) ∧
        ∃ node ∈ schema.documents.definitions, Clashes options.typeFieldName node)
        (moduleOf options schema) := by
      refine moduleOf_failsOnly (fun part node hmem => ?_) fun part node hmem fault hfault => ?_
      · obtain ⟨s, hs⟩ := (hprint part node hmem).name
        exact ⟨.str s, hs, .inl rfl⟩
      · obtain ⟨hname, hclash⟩ :=
          declaration_reserved (hw part node hmem) (hprint part node hmem) fault hfault
        obtain rfl := hclash.documents (hw part node hmem)
        exact ⟨hname, node, hmem, hclash⟩
    cases hresult : moduleOf options schema with
    | ok text =>
      refine ⟨.inl ⟨text, rfl⟩, by simp, ?_⟩
      rintro ⟨node, hmem, hclash⟩
      obtain ⟨text, htext⟩ := declaration_of_moduleOf hresult .documents hmem
      exact absurd htext (hclash.declaration_ne_ok text)
    | error fault =>
      obtain ⟨⟨field, type, rfl⟩, hclash⟩ := hreserved fault hresult
      exact ⟨.inr ⟨field, type, rfl⟩, fun _ => hclash, fun _ => ⟨field, type, rfl⟩⟩

/-- A dump of a document type with a list of shapes, a label for it and a computed
field of the name of the type field. -/
def postDump : Json :=
  .obj [("documentTypeDefMap", .obj [("Post", .obj
    [("fieldDefs", .arr [.obj [("type", .str "list"), ("name", .str "tags"),
      ("of", .obj [("type", .str "nested_unnamed"), ("typeDef", .obj [("fieldDefs",
        .arr [.obj [("type", .str "enum"), ("name", .str "tone"), ("options", .str "ab")]])])])]]),
    ("computedFields", .arr [.obj [("name", .str "type"), ("type", .str "string")]]),
    ("extensions", .obj [("stackbit", .obj [])])])])]

/-- The model of this dump. -/
def postSchema : Schema :=
  { documents := [(.str "Post", .document (.str "Post")
      (.group [.field { name := .str "tags" } (.list (.item (.nestedUnnamed (.shape (.group
        [.field { name := .str "tone" } (.enum (listing ["a", "b"]))])))))])
      (.group [.computed (.str "type") (.str "string") .null])
      .null (.obj [("stackbit", .obj [])]))] }

theorem postDump_stops : Dump.schema postDump = .ok postSchema ∧
    ∃ field type, moduleOf {} postSchema = .error (.reservedName field type) := by
  have hread : Dump.schema postDump = .ok postSchema := by rfl
  have hpath : LabelPath (.obj [("stackbit", .obj [])]) "Post" :=
    ⟨fun _ => ⟨_, rfl⟩, fun _ => ⟨_, rfl⟩, nofun, nofun⟩
  have hprint : ∀ part, ∀ node ∈ (postSchema.registry part).definitions, Printable node := by
    intro part node hmem
    cases part with
    | nested => exact absurd hmem List.not_mem_nil
    | documents =>
      obtain rfl := List.mem_singleton.mp hmem
      refine ⟨⟨"Post", rfl⟩, ?_, ?_⟩
      · rintro _ ⟨⟩
        simp [Demand.FieldGroup, Demand.Fields, Demand.Field, Demand.Kind, Demand.Item,
          Demand.ItemKind, Demand.Shape, textual, listing, Json.elements?, Json.isText]
      · rintro _ _ _ _ _ ⟨⟩ _
        exact hpath
  have hclash : ∃ node ∈ postSchema.documents.definitions, Clashes (.str "type") node :=
    ⟨_, List.mem_cons_self, .mk List.mem_cons_self rfl
      (by simp [Json.equals, Json.isNaN, Json.agrees])⟩
  exact ⟨hread, ((moduleOf_parsed hread {}).2 hprint).2.mpr hclash⟩

end TypeScript
end ContentDecl
