/-
# The names of the members of a declaration

Every block of a declaration is a member: behind a comment, if it has one, stand its
name and its type. Three members are in every declaration, the identifier, the raw
payload and the type field; behind them come the declared and the computed fields.

Only the name of the type field is reserved: a declared field gives way to it, and with
a computed field of this name there is no declaration. So if the names of the fields are
distinct, then the names of the type field and of the fields that are there are
distinct as well, and a name that is there twice is the one of the identifier or of the
payload, which anything may have.

Key definitions: `Block.label`, `DeclaresMember`, `memberNames`, `HasFieldNames`,
`HasMembers`.
Key theorems: `BlockText.declaresMember`, `memberNames_eq`, `repeated_memberName`,
`declaration_members`.
-/
import ContentDecl.Proofs.Rendering.DeclarationLayout
import ContentDecl.Proofs.Rendering.NameOrder
import Mathlib.Data.List.Nodup

namespace ContentDecl
namespace TypeScript

variable {options : Options} {typeField : Json} {definition : Node}

/-- The name of the member that a block declares. -/
def Block.label (typeField : Json) : Block → String
  | identifier => "_id"
  | payload => "_raw"
  | discriminant => typeField.text
  | declared node => node.nameText
  | computed node => node.nameText

/-- A text that declares a member: a comment or none, then the name and a type. -/
def DeclaresMember (name text : String) : Prop :=
  ∃ about type, (about = "" ∨ ∃ words, about = "  /** " ++ words ++ " */\n") ∧
    text = about ++ "  " ++ name ++ ": " ++ type

theorem comment_eq_or (description : Json) :
    comment description indent = "" ∨
      ∃ words, comment description indent = "  /** " ++ words ++ " */\n" := by
  have hopen : indent ++ "/** " = "  /** " := rfl
  unfold comment
  by_cases htrue : description.isTrue = true
  · rw [if_pos htrue, hopen]
    exact .inr ⟨description.text, rfl⟩
  · rw [if_neg htrue]
    exact .inl rfl

/-- **The text of a block declares the member of its name.** -/
theorem BlockText.declaresMember {typeName : Json} {block : Block} {text : String}
    (h : BlockText options typeName block text) :
    DeclaresMember (block.label options.typeFieldName) text := by
  cases h with
  | identifier =>
    refine ⟨"  /** " ++ options.adapter.wording.idComment ++ " */\n", "string",
      .inr ⟨_, rfl⟩, ?_⟩
    have hline : "  _id: string" = "  " ++ "_id" ++ ": " ++ "string" := rfl
    rw [hline, Block.label]
    simp only [String.append_assoc]
  | payload => exact ⟨"", options.adapter.wording.rawType, .inl rfl, rfl⟩
  | discriminant =>
    refine ⟨"", "'" ++ typeName.text ++ "'", .inl rfl, ?_⟩
    have hquote : ": '" = ": " ++ "'" := rfl
    unfold discriminantText Block.label
    simp only [hquote, String.append_assoc, String.empty_append]
  | @declared head kind type htype =>
    refine ⟨comment head.description indent,
      type.text ++ (if head.isRequired.isTrue then "" else " | undefined"), comment_eq_or _, ?_⟩
    unfold memberLine Block.label Node.nameText
    simp only [Node.name?, Option.getD_some, indent, String.append_assoc]
  | @computed node name type description hname hdescription hkind =>
    refine ⟨comment description indent, type.text, comment_eq_or _, ?_⟩
    unfold Block.label Node.nameText
    simp only [hname, Option.getD_some, indent, String.append_assoc]

/-- The names of the members of a definition's declaration, in their order. -/
def memberNames (typeField : Json) (definition : Node) : List String :=
  (blocksOf typeField definition).map (Block.label typeField)

/-- The declared and the computed fields of a definition have these names, which are
distinct texts. -/
structure HasFieldNames (definition : Node) (declared computed : List String) : Prop where
  ofDeclared : ∃ nodes, definition.fields?.bind Node.members? = some nodes ∧
    nodes.map Node.name? = declared.map fun s => some (.str s)
  ofComputed : (computedOf definition).map Node.name? = computed.map fun s => some (.str s)
  distinct : (declared ++ computed).Nodup

/-- The names that do not give way to the name of the type field. -/
def keptNames (typeField : Json) (names : List String) : List String :=
  names.filter fun s => !(Json.str s).equals typeField

theorem equals_str_iff {s : String} {v : Json} : (Json.str s).equals v = true ↔ v = .str s := by
  cases v with
  | str t =>
    have hsame : (Json.str s).equals (.str t) = (s == t) := by
      simp [Json.equals, Json.isNaN, Json.agrees]
    rw [hsame, beq_iff_eq, Json.str.injEq]
    exact eq_comm
  | _ => simp [Json.equals, Json.isNaN, Json.agrees, Json.magnitude?]

theorem namedAs_of_name {node : Node} {s : String} (h : node.name? = some (.str s)) :
    namedAs typeField node = (Json.str s).equals typeField := by
  rw [namedAs, h, Option.any_some]

theorem nameText_of_name {node : Node} {s : String} (h : node.name? = some (.str s)) :
    node.nameText = s := by
  rw [Node.nameText, h, Option.getD_some, Json.text]

theorem map_nameText : ∀ {nodes : List Node} {names : List String},
    (nodes.map Node.name? = names.map fun s => some (.str s)) → nodes.map Node.nameText = names
  | [], [], _ => rfl
  | node :: nodes, name :: names, h => by
    obtain ⟨hname, hrest⟩ := List.cons.inj h
    rw [List.map_cons, nameText_of_name hname, map_nameText hrest]

/-- Of the fields, those are kept whose names are. -/
theorem map_nameText_filter {nodes : List Node} {names : List String}
    (h : nodes.map Node.name? = names.map fun s => some (.str s)) :
    (nodes.filter fun node => !namedAs typeField node).map Node.nameText
      = keptNames typeField names := by
  have hnames : nodes.map Node.nameText = names := map_nameText h
  have hkept : ∀ node ∈ nodes,
      (!namedAs typeField node) = !(Json.str node.nameText).equals typeField := by
    intro node hmem
    have hname : node.name? ∈ names.map fun s => some (Json.str s) :=
      h ▸ List.mem_map_of_mem hmem
    obtain ⟨s, -, hs⟩ := List.mem_map.mp hname
    rw [namedAs_of_name hs.symm, nameText_of_name hs.symm]
  rw [keptNames, ← hnames, List.filter_map, List.filter_congr hkept]
  rfl

/-- The names of the declared fields that are in a declaration. -/
theorem map_nameText_declaredFields {nodes : List Node} {names : List String}
    (hnodes : definition.fields?.bind Node.members? = some nodes)
    (hnames : nodes.map Node.name? = names.map fun s => some (.str s)) :
    (declaredFields typeField definition).map Node.nameText = keptNames typeField names := by
  obtain ⟨fields, hfields, hmembers⟩ := Option.bind_eq_some_iff.mp hnodes
  unfold declaredFields
  rw [hfields]
  cases fields with
  | group members =>
    obtain rfl : members = nodes := Option.some.inj hmembers
    exact map_nameText_filter hnames
  | plain v =>
    -- The elements of a plain value have no names, so there are none.
    obtain ⟨vs, -, rfl⟩ := Option.map_eq_some_iff.mp hmembers
    have hnil : names = [] := by
      cases vs with
      | nil => simpa using hnames
      | cons w vs =>
        cases names with
        | nil => simp at hnames
        | cons s names => simp [Node.name?] at hnames
    rw [hnil]
    rfl
  | _ => cases hmembers

/-- **The members of a declaration**: three of its own, then the declared fields that
are kept, then the computed ones. -/
theorem memberNames_eq {declared computed : List String}
    (h : HasFieldNames definition declared computed) :
    memberNames typeField definition
      = "_id" :: "_raw" :: typeField.text :: (keptNames typeField declared ++ computed) := by
  obtain ⟨nodes, hnodes, hnames⟩ := h.ofDeclared
  have hkept : ((declaredFields typeField definition).map Block.declared).map
      (Block.label typeField) = keptNames typeField declared := by
    rw [List.map_map, ← map_nameText_declaredFields hnodes hnames]
    rfl
  have hcomputed : ((computedOf definition).map Block.computed).map (Block.label typeField)
      = computed := by
    rw [List.map_map]
    exact map_nameText h.ofComputed
  rw [memberNames, blocksOf, List.map_append, List.map_append, hkept, hcomputed,
    List.append_assoc]
  rfl

/-- Fields of distinct names are distinct if some are left out. -/
theorem nodup_keptNames {declared computed : List String} (h : (declared ++ computed).Nodup) :
    (keptNames typeField declared ++ computed).Nodup :=
  h.sublist (List.filter_sublist.append_right computed)

/-- A text in the place of the name of the type field is not the name of a field that is
in the declaration. -/
theorem not_mem_kept {declared computed : List String}
    (hcomputed : ∀ s ∈ computed, (Json.str s).equals typeField = false) {t : String}
    (ht : typeField = .str t) : t ∉ keptNames typeField declared ++ computed := by
  have heq : (Json.str t).equals typeField = true := equals_str_iff.mpr ht
  intro hmem
  rcases List.mem_append.mp hmem with hmem | hmem
  · have hno := (List.mem_filter.mp hmem).2
    rw [heq] at hno
    cases hno
  · have hno := hcomputed t hmem
    rw [heq] at hno
    cases hno

/-- **A name that two members have** is the one of the identifier or of the payload, or
else the text of a type field whose name is no text. -/
theorem repeated_memberName {declared computed : List String}
    (hdistinct : (declared ++ computed).Nodup)
    (hcomputed : ∀ s ∈ computed, (Json.str s).equals typeField = false) {name : String}
    (h : 1 < ("_id" :: "_raw" :: typeField.text
      :: (keptNames typeField declared ++ computed)).count name) :
    name = "_id" ∨ name = "_raw" ∨ (typeField.isText = false ∧ name = typeField.text) := by
  by_cases hid : name = "_id"
  · exact .inl hid
  by_cases hraw : name = "_raw"
  · exact .inr (.inl hraw)
  have hone : (keptNames typeField declared ++ computed).count name ≤ 1 :=
    List.nodup_iff_count_le_one.mp (nodup_keptNames hdistinct) name
  rw [List.count_cons_of_ne (Ne.symm hid), List.count_cons_of_ne (Ne.symm hraw)] at h
  by_cases htype : name = typeField.text
  · refine .inr (.inr ⟨?_, htype⟩)
    by_contra htext
    obtain ⟨t, ht⟩ := eq_str_of_isText (Bool.of_not_eq_false htext)
    have hzero : (keptNames typeField declared ++ computed).count name = 0 := by
      rw [htype, ht, Json.text, ← ht]
      exact List.count_eq_zero.mpr (not_mem_kept hcomputed ht)
    rw [htype, List.count_cons_self, ← htype] at h
    omega
  · rw [List.count_cons_of_ne (Ne.symm htype)] at h
    omega

/-- What the members of a declaration are, if its fields have distinct names: each block
declares one; they are the three of every declaration, the declared fields without the
name of the type field and the computed fields, none of which has this name; and only a
name that is not reserved is there twice. -/
structure HasMembers (options : Options) (definition : Node) (declared computed : List String)
    (text : String) : Prop where
  printed : ∃ typeName texts, IsLaidOut options definition typeName texts text ∧
    List.Forall₂ DeclaresMember (memberNames options.typeFieldName definition) texts
  names : memberNames options.typeFieldName definition
    = "_id" :: "_raw" :: options.typeFieldName.text
      :: (keptNames options.typeFieldName declared ++ computed)
  rejected : ∀ s ∈ computed, (Json.str s).equals options.typeFieldName = false
  repeated : ∀ name, 1 < (memberNames options.typeFieldName definition).count name →
    name = "_id" ∨ name = "_raw" ∨
      (options.typeFieldName.isText = false ∧ name = options.typeFieldName.text)
  distinct : options.typeFieldName.isText = true →
    (∀ name ∈ options.typeFieldName.text :: (keptNames options.typeFieldName declared ++ computed),
      name ≠ "_id" ∧ name ≠ "_raw") →
    (memberNames options.typeFieldName definition).Nodup

/-- No computed field of a declaration has the name of the type field. -/
theorem not_equals_of_laidOut {declared computed : List String} {typeName : Json}
    {texts : List String} {text : String} (hnames : HasFieldNames definition declared computed)
    (h : IsLaidOut options definition typeName texts text) :
    ∀ s ∈ computed, (Json.str s).equals options.typeFieldName = false := by
  intro s hmem
  have hname : some (Json.str s) ∈ (computedOf definition).map Node.name? := by
    rw [hnames.ofComputed]
    exact List.mem_map_of_mem hmem
  obtain ⟨node, hnode, hname⟩ := List.mem_map.mp hname
  have hblock : Block.computed node ∈ blocksOf options.typeFieldName definition :=
    List.mem_append_right _ (List.mem_map_of_mem hnode)
  rw [← namedAs_of_name hname]
  exact h.others _ hblock node rfl

/-- **The members of a declaration that is rendered.** If the declared and computed
fields of a definition have distinct names, then no two members have the same name but
for those of the identifier and the payload; so if nothing else is named like these, all
members have names of their own. -/
theorem declaration_members {declared computed : List String} {text : String}
    (hnames : HasFieldNames definition declared computed)
    (h : declaration options definition = .ok text) :
    HasMembers options definition declared computed text := by
  obtain ⟨typeName, texts, hlaid⟩ := isLaidOut_of_declaration h
  have hcomputed := not_equals_of_laidOut hnames hlaid
  have hall : memberNames options.typeFieldName definition
      = "_id" :: "_raw" :: options.typeFieldName.text
        :: (keptNames options.typeFieldName declared ++ computed) := memberNames_eq hnames
  have hrepeated : ∀ name, 1 < (memberNames options.typeFieldName definition).count name →
      name = "_id" ∨ name = "_raw" ∨
        (options.typeFieldName.isText = false ∧ name = options.typeFieldName.text) := by
    intro name hname
    rw [hall] at hname
    exact repeated_memberName hnames.distinct hcomputed hname
  refine ⟨⟨typeName, texts, hlaid, ?_⟩, hall, hcomputed, hrepeated, fun htext hfree => ?_⟩
  · unfold memberNames
    rw [List.forall₂_map_left_iff]
    exact hlaid.blocks.imp fun _ _ hblock => hblock.declaresMember
  · obtain ⟨t, ht⟩ := eq_str_of_isText htext
    have hreserved : options.typeFieldName.text
        ∉ keptNames options.typeFieldName declared ++ computed := by
      have hno : t ∉ keptNames options.typeFieldName declared ++ computed :=
        not_mem_kept hcomputed ht
      rwa [ht, Json.text, ← ht]
    have hrest := List.nodup_cons.mpr ⟨hreserved, nodup_keptNames hnames.distinct⟩
    have hraw := List.nodup_cons.mpr ⟨fun hmem => (hfree _ hmem).2 rfl, hrest⟩
    rw [hall]
    refine List.nodup_cons.mpr ⟨fun hmem => ?_, hraw⟩
    rcases List.mem_cons.mp hmem with hmem | hmem
    · exact absurd hmem (by decide)
    · exact (hfree _ hmem).1 rfl

theorem labelledDocument_members :
    HasFieldNames labelledDocument ["title", "type"] ["url"] ∧
    declaration {} labelledDocument = .ok labelledText ∧
    HasMembers {} labelledDocument ["title", "type"] ["url"] labelledText := by
  have hnames : HasFieldNames labelledDocument ["title", "type"] ["url"] :=
    ⟨⟨_, rfl, rfl⟩, rfl, by decide⟩
  have hrendered : declaration {} labelledDocument = .ok labelledText := by
    with_unfolding_all rfl
  exact ⟨hnames, hrendered, declaration_members hnames hrendered⟩

/-- A document type with a field of the name of the identifier. -/
def identifiedDocument : Node :=
  .document (.str "Post") (.group [.field { name := .str "_id", isRequired := .bool true } .string])
    (.group []) .null (.obj [])

/-- A field of the name of the identifier is declared beside it. -/
theorem identifiedDocument_repeats :
    HasFieldNames identifiedDocument ["_id"] [] ∧
    (∃ text, declaration {} identifiedDocument = .ok text) ∧
    ¬ (memberNames (Options.typeFieldName {}) identifiedDocument).Nodup := by
  have hnames : HasFieldNames identifiedDocument ["_id"] [] := ⟨⟨_, rfl, rfl⟩, rfl, by decide⟩
  refine ⟨hnames, ⟨_, by with_unfolding_all rfl⟩, ?_⟩
  have hkept : "_id" ∈ keptNames (Options.typeFieldName {}) ["_id"] := by
    refine List.mem_filter.mpr ⟨List.mem_cons_self, ?_⟩
    simp [Json.equals, Json.isNaN, Json.agrees, Options.typeFieldName]
  have hlater : "_id" ∈ "_raw" :: (Options.typeFieldName {}).text
      :: (keptNames (Options.typeFieldName {}) ["_id"] ++ []) :=
    List.mem_cons_of_mem _ (List.mem_cons_of_mem _ (List.mem_append_left [] hkept))
  rw [memberNames_eq hnames]
  intro hnodup
  exact (List.nodup_cons.mp hnodup).1 hlater

end TypeScript
end ContentDecl
