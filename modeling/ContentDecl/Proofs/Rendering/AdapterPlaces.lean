/-
# An adapter changes its own lines only

What is rendered is found without the adapter: the definitions in their order, the
lines of their members, their comments. Only then is the text made, and in it the
adapter has its places: the import of a module, and in each declaration the comment
on the identifier and the type of the raw payload. So two adapters fail alike, and
if they do not, their modules are made of one template.

Key definitions: `Parts`, `ModuleParts`, `DeclarationRows`, `ModuleTemplate`.
Key theorems: `declaration_eq_map`, `moduleOf_eq_map`, `fillRows_declaration`,
`moduleOf_adapters`.
-/
import ContentDecl.Proofs.Rendering.Listings
import ContentDecl.Proofs.Rendering.Template

namespace ContentDecl
namespace TypeScript

open Result

/-! ### What is found without the adapter -/

/-- What a declaration is made of, apart from the options. -/
structure Parts where
  description : Json
  name : Json
  lines : List String

def Parts.text (options : Options) (parts : Parts) : String :=
  declarationText parts.description parts.name options parts.lines

def partsOf (typeField : Json) (node : Node) : Except Fault Parts := do
  let lines ← declarationLines typeField node
  let description ← definitionComment node
  return { description, name := node.name?.getD .null, lines }

theorem declaration_eq_map (options : Options) (node : Node) :
    declaration options node = Parts.text options <$> partsOf options.typeFieldName node := by
  rw [declaration, partsOf]
  cases declarationLines options.typeFieldName node with
  | error fault => rfl
  | ok lines => cases definitionComment node <;> rfl

/-- The parts of definitions with their names, in the order of the names. -/
def allParts (typeField : Json) (nodes : List Node) : Except Fault (List (Json × Parts)) :=
  inOrder nodes >>= fun entries =>
    entries.mapM fun entry => Prod.mk entry.1 <$> partsOf typeField entry.2

def declaredOf (options : Options) (entry : Json × Parts) : Declared :=
  ⟨entry.1, entry.2.text options⟩

theorem declareAll_eq_map (options : Options) (nodes : List Node) :
    declareAll options nodes
      = List.map (declaredOf options) <$> allParts options.typeFieldName nodes := by
  rw [declareAll_eq, allParts]
  cases inOrder nodes with
  | error fault => rfl
  | ok entries =>
    rw [ok_bind, ok_bind, ← mapM_map]
    refine congrArg (fun f => entries.mapM f) (funext fun entry => ?_)
    rw [declaration_eq_map]
    cases partsOf options.typeFieldName entry.2 <;> rfl

/-- What a module is made of, apart from the options. -/
structure ModuleParts where
  documentNames : List String
  nestedNames : List String
  documents : List (Json × Parts)
  nested : List (Json × Parts)

def ModuleParts.text (options : Options) (parts : ModuleParts) : String :=
  moduleText options parts.documentNames parts.nestedNames
    (parts.documents.map fun entry => entry.2.text options)
    (parts.nested.map fun entry => entry.2.text options)

def modulePartsOf (typeField : Json) (schema : Schema) : Except Fault ModuleParts := do
  let documents ← allParts typeField schema.documents.definitions
  let nested ← allParts typeField schema.nested.definitions
  let documentNames ← documents.mapM fun entry => asText entry.1
  let nestedNames ← nested.mapM fun entry => asText entry.1
  return { documentNames, nestedNames, documents, nested }

theorem namesOf_declaredOf (options : Options) (entries : List (Json × Parts)) :
    namesOf (entries.map (declaredOf options)) = entries.mapM fun entry => asText entry.1 := by
  rw [namesOf, List.mapM_map]
  rfl

/-- **A module is made of parts that do not depend on the adapter.** -/
theorem moduleOf_eq_map (options : Options) (schema : Schema) :
    moduleOf options schema
      = ModuleParts.text options <$> modulePartsOf options.typeFieldName schema := by
  unfold moduleOf Declarations.ofSchema modulePartsOf
  rw [declareAll_eq_map, declareAll_eq_map]
  cases allParts options.typeFieldName schema.documents.definitions with
  | error fault => rfl
  | ok documents =>
    cases allParts options.typeFieldName schema.nested.definitions with
    | error fault => rfl
    | ok nested =>
      simp only [map_ok, ok_bind, pure_bind, Declarations.moduleText, namesOf_declaredOf]
      cases documents.mapM fun entry => asText entry.1 with
      | error fault => rfl
      | ok documentNames =>
        cases nested.mapM fun entry => asText entry.1 with
        | error fault => rfl
        | ok nestedNames =>
          simp only [ok_bind, List.map_map]
          rfl

/-! ### Rows -/

theorem fillRows_flatMap (wording : AdapterWording) : ∀ lines : List String,
    fillRows wording (lines.flatMap fixedRows) = unlines lines
  | [] => rfl
  | line :: lines => by
    rw [List.flatMap_cons, fillRows_append, fillRows_flatMap wording lines, fillRows_fixedRows,
      unlines, unlines, List.map_cons, String.join_cons]

def commentRows (description : Json) : List Row :=
  if description.isTrue then fixedRows ("/** " ++ description.text ++ " */") else []

theorem fillRows_commentRows (wording : AdapterWording) (description : Json) :
    fillRows wording (commentRows description) = comment description "" := by
  have hend : " */\n" = " */" ++ "\n" := rfl
  unfold commentRows comment
  split
  · rw [fillRows_fixedRows, hend, String.empty_append]
    simp only [String.append_assoc]
  · rfl

/-- The rows of a declaration. -/
def Parts.rows (typeField : Json) (parts : Parts) : List Row :=
  commentRows parts.description
    ++ fixedRows ("export type " ++ parts.name.text ++ " = \x7b")
    ++ [.idComment]
    ++ fixedRows "  _id: string"
    ++ [.rawType]
    ++ fixedRows ("  " ++ typeField.text ++ ": '" ++ parts.name.text ++ "'")
    ++ parts.lines.flatMap fixedRows
    ++ fixedRows "\x7d"

/-- A declaration on lines of its own is its rows filled. -/
theorem fillRows_declaration (options : Options) (parts : Parts) :
    fillRows options.adapter.wording (parts.rows options.typeFieldName)
      = parts.text options ++ "\n" := by
  have hopen : " = \x7b\n" = " = \x7b" ++ "\n" := rfl
  have hend : " */\n" = " */" ++ "\n" := rfl
  have hid : "  _id: string\n" = "  _id: string" ++ "\n" := rfl
  have hquote : "'\n" = "'" ++ "\n" := rfl
  unfold Parts.text declarationText
  rw [hopen, hend, hid, hquote, ← fillRows_commentRows options.adapter.wording, ← unlines]
  simp only [Parts.rows, fillRows_append, fillRows_fixedRows, fillRows_idComment, fillRows_rawType,
    fillRows_flatMap, String.append_assoc]

/-- The rows of a declaration: they are filled to it, and one of them is the comment on
the identifier and one the type of the raw payload. -/
structure DeclarationRows (options : Options) (node : Node) (rows : List Row) : Prop where
  filled : ∀ adapter : Adapter, ∃ text,
    declaration { options with adapter := adapter } node = .ok text ∧
      fillRows adapter.wording rows = text ++ "\n"
  adapterImport : rows.count .adapterImport = 0
  idComment : rows.count .idComment = 1
  rawType : rows.count .rawType = 1

theorem AllFixed.commentRows (description : Json) : AllFixed (commentRows description) := by
  unfold TypeScript.commentRows
  split
  · exact .fixedRows _
  · exact .nil

theorem AllFixed.lines (lines : List String) : AllFixed (lines.flatMap TypeScript.fixedRows) :=
  .flatMap fun line _ => .fixedRows line

/-- The rows of a declaration that are left to the wording. -/
theorem Parts.count_rows (typeField : Json) (parts : Parts) {row : Row} (h : row.isHole = true) :
    (parts.rows typeField).count row = [Row.idComment, Row.rawType].count row := by
  simp only [Parts.rows, List.count_append, (AllFixed.commentRows _).count_eq_zero h,
    (AllFixed.fixedRows _).count_eq_zero h, (AllFixed.lines _).count_eq_zero h, Nat.zero_add,
    Nat.add_zero]
  rw [← List.count_append]
  rfl

theorem declarationRows_parts {options : Options} {node : Node} {parts : Parts}
    (h : partsOf options.typeFieldName node = .ok parts) :
    DeclarationRows options node (parts.rows options.typeFieldName) where
  filled adapter := by
    have hdeclaration := declaration_eq_map { options with adapter := adapter } node
    have hparts : partsOf (Options.typeFieldName { options with adapter := adapter }) node
        = .ok parts := h
    rw [hparts, map_ok] at hdeclaration
    exact ⟨_, hdeclaration, fillRows_declaration { options with adapter := adapter } parts⟩
  adapterImport := parts.count_rows _ rfl
  idComment := parts.count_rows _ rfl
  rawType := parts.count_rows _ rfl

theorem Parts.isLine_rows (typeField : Json) (parts : Parts) :
    ∀ row ∈ parts.rows typeField, row.IsLine := by
  have hcomment := (AllFixed.commentRows parts.description).isLine
  have hlines := (AllFixed.lines parts.lines).isLine
  have hfixed : ∀ s, ∀ row ∈ fixedRows s, row.IsLine := fun s => (AllFixed.fixedRows s).isLine
  simp only [Parts.rows, List.forall_mem_append, List.forall_mem_singleton]
  exact ⟨⟨⟨⟨⟨⟨⟨hcomment, hfixed _⟩, trivial⟩, hfixed _⟩, trivial⟩, hfixed _⟩, hlines⟩, hfixed _⟩

/-! ### Templates of modules -/

/-- A module by its rows: fixed lines, the import, fixed lines up to the declarations of
document types, and those of nested types under their heading. -/
structure ModuleTemplate where
  head : List String
  middle : List String
  documents : List (List Row)
  heading : List String
  nested : List (List Row)

/-- Declarations with a blank line between two of them. -/
def spaced (blocks : List (List Row)) : List Row := [.fixed ""].intercalate blocks

def ModuleTemplate.rows (template : ModuleTemplate) : List Row :=
  template.head.map .fixed ++ [.adapterImport] ++ template.middle.map .fixed
    ++ spaced template.documents ++ template.heading.map .fixed ++ spaced template.nested

theorem fillRows_spaced (wording : AdapterWording) {blocks : List (List Row)} {texts : List String}
    (h : List.Forall₂ (fun rows text => fillRows wording rows = text ++ "\n") blocks texts) :
    fillRows wording (spaced blocks) = paragraphs texts := by
  induction h with
  | nil => rfl
  | @cons rows text blocks texts h hs ih =>
    cases hs with
    | nil => rw [spaced, List.intercalate_singleton, h, paragraphs]
    | @cons next other blocks texts hnext hrest =>
      have hblank : fillRows wording [.fixed ""] = "\n" := rfl
      rw [spaced] at ih ⊢
      rw [List.intercalate_cons_cons, fillRows_append, fillRows_append, h, ih, hblank, paragraphs]

theorem forall_spaced {p : Row → Prop} (hblank : p (.fixed "")) : ∀ {blocks : List (List Row)},
    (∀ rows ∈ blocks, ∀ row ∈ rows, p row) → ∀ row ∈ spaced blocks, p row
  | [], _ => nofun
  | [rows], h => by
    rw [spaced, List.intercalate_singleton]
    exact h rows List.mem_cons_self
  | rows :: next :: blocks, h => by
    have hrest : ∀ row ∈ spaced (next :: blocks), p row :=
      forall_spaced hblank fun rows hmem => h rows (List.mem_cons_of_mem _ hmem)
    rw [spaced, List.intercalate_cons_cons]
    simp only [List.forall_mem_append, List.forall_mem_singleton]
    exact ⟨⟨h rows List.mem_cons_self, hblank⟩, hrest⟩

/-- If each block has two rows that are left to the wording, then all together have two
for each block. -/
theorem countP_spaced : ∀ {blocks : List (List Row)},
    (∀ rows ∈ blocks, rows.countP Row.isHole = 2) →
    (spaced blocks).countP Row.isHole = 2 * blocks.length
  | [], _ => rfl
  | [rows], h => by
    rw [spaced, List.intercalate_singleton, h rows List.mem_cons_self]
    rfl
  | rows :: next :: blocks, h => by
    have hrest : (spaced (next :: blocks)).countP Row.isHole = 2 * (next :: blocks).length :=
      countP_spaced fun rows hmem => h rows (List.mem_cons_of_mem _ hmem)
    have hblank : [Row.fixed ""].countP Row.isHole = 0 := rfl
    rw [spaced] at hrest ⊢
    rw [List.intercalate_cons_cons, List.countP_append, List.countP_append, h rows List.mem_cons_self,
      hrest, hblank]
    simp only [List.length_cons]
    omega

theorem countP_isHole (rows : List Row) : rows.countP Row.isHole
    = rows.count .adapterImport + rows.count .idComment + rows.count .rawType := by
  induction rows with
  | nil => rfl
  | cons row rows ih =>
    rw [List.countP_cons, List.count_cons, List.count_cons, List.count_cons, ih]
    cases row <;> simp [Row.isHole] <;> omega

theorem DeclarationRows.countP_isHole {options : Options} {node : Node} {rows : List Row}
    (h : DeclarationRows options node rows) : rows.countP Row.isHole = 2 := by
  rw [TypeScript.countP_isHole, h.adapterImport, h.idComment, h.rawType]

/-- What stands between the import and the declarations of document types. -/
def middleText (documentNames nestedNames : List String) : String :=
  preamble
    ++ mapText "DocumentTypeMap" documentNames
    ++ mapText "NestedTypeMap" nestedNames
    ++ "\nexport type AllTypes = DocumentTypes | NestedTypes\n"
    ++ "export type AllTypeNames = DocumentTypeNames | NestedTypeNames\n"
    ++ unionsText "DocumentTypes" "DocumentTypeNames" documentNames
    ++ unionsText "NestedTypes" "NestedTypeNames" nestedNames
    ++ "\n/** Document types */"

def ModuleParts.template (options : Options) (parts : ModuleParts) : ModuleTemplate where
  head := splitLines ((if options.banner.isTrue then banner else "")
    ++ "import type \x7b Markdown, MDX \x7d from 'contentlayer/core'")
  middle := splitLines (middleText parts.documentNames parts.nestedNames)
  documents := parts.documents.map fun entry => entry.2.rows options.typeFieldName
  heading := splitLines "\n/** Nested types */"
  nested := parts.nested.map fun entry => entry.2.rows options.typeFieldName

theorem fillRows_blocks (options : Options) (entries : List (Json × Parts)) :
    fillRows options.adapter.wording
        (spaced (entries.map fun entry => entry.2.rows options.typeFieldName))
      = paragraphs (entries.map fun entry => entry.2.text options) := by
  refine fillRows_spaced _ ?_
  rw [List.forall₂_map_left_iff, List.forall₂_map_right_iff, List.forall₂_same]
  exact fun entry _ => fillRows_declaration options entry.2

/-- A module is its template filled. -/
theorem fillRows_module (options : Options) (parts : ModuleParts) :
    fillRows options.adapter.wording (parts.template options).rows = parts.text options := by
  -- The line breaks that end a run of fixed lines are those that the rows bring.
  have himport : "import type \x7b Markdown, MDX \x7d from 'contentlayer/core'\n"
      = "import type \x7b Markdown, MDX \x7d from 'contentlayer/core'" ++ "\n" := rfl
  have hdocuments : "\n/** " ++ "Document types" ++ " */\n" = "\n/** Document types */" ++ "\n" := rfl
  have hnested : "\n/** " ++ "Nested types" ++ " */\n" = "\n/** Nested types */" ++ "\n" := rfl
  unfold ModuleParts.text moduleText
  rw [declarationsText_eq_paragraphs, declarationsText_eq_paragraphs, himport, hdocuments, hnested]
  simp only [ModuleTemplate.rows, ModuleParts.template, fillRows_append, fillRows_fixed,
    unlines_splitLines, fillRows_adapterImport, fillRows_blocks, middleText, String.append_assoc]

/-- Blocks of rows are the declarations of definitions, each definition once. -/
def BlocksOf (options : Options) (definitions : List Node) (blocks : List (List Row)) : Prop :=
  ∃ sorted : List Node, sorted.Perm definitions ∧
    List.Forall₂ (DeclarationRows options) sorted blocks

theorem BlocksOf.length_eq {options : Options} {definitions : List Node} {blocks : List (List Row)}
    (h : BlocksOf options definitions blocks) : blocks.length = definitions.length := by
  obtain ⟨sorted, hperm, hrows⟩ := h
  exact hrows.length_eq.symm.trans hperm.length_eq

theorem BlocksOf.countP_isHole {options : Options} {definitions : List Node}
    {blocks : List (List Row)} (h : BlocksOf options definitions blocks) :
    ∀ rows ∈ blocks, rows.countP Row.isHole = 2 := by
  obtain ⟨sorted, -, hrows⟩ := h
  induction hrows with
  | nil => nofun
  | cons hrows _ ih => exact List.forall_mem_cons.mpr ⟨hrows.countP_isHole, ih⟩

theorem blocksOf_allParts {options : Options} {nodes : List Node} {entries : List (Json × Parts)}
    (h : allParts options.typeFieldName nodes = .ok entries) :
    BlocksOf options nodes (entries.map fun entry => entry.2.rows options.typeFieldName) := by
  obtain ⟨found, hfound, h⟩ := bind_eq_ok.mp h
  refine ⟨found.map (·.2), inOrder_perm hfound, ?_⟩
  rw [List.forall₂_map_left_iff, List.forall₂_map_right_iff]
  refine (mapM_eq_ok_iff.mp h).imp fun entry result hresult => ?_
  obtain ⟨parts, hparts, rfl⟩ := map_eq_ok.mp hresult
  exact declarationRows_parts hparts

theorem ModuleParts.blocksOf_template {options : Options} {schema : Schema} {parts : ModuleParts}
    (h : modulePartsOf options.typeFieldName schema = .ok parts) :
    BlocksOf options schema.documents.definitions (parts.template options).documents ∧
      BlocksOf options schema.nested.definitions (parts.template options).nested := by
  obtain ⟨documents, hdocuments, h⟩ := bind_eq_ok.mp h
  obtain ⟨nested, hnested, h⟩ := bind_eq_ok.mp h
  obtain ⟨documentNames, -, h⟩ := bind_eq_ok.mp h
  obtain ⟨nestedNames, -, h⟩ := bind_eq_ok.mp h
  obtain rfl := pure_eq_ok.mp h
  exact ⟨blocksOf_allParts hdocuments, blocksOf_allParts hnested⟩

theorem ModuleParts.isLine_template (options : Options) (parts : ModuleParts) :
    ∀ row ∈ (parts.template options).rows, row.IsLine := by
  have hblocks : ∀ entries : List (Json × Parts),
      ∀ row ∈ spaced (entries.map fun entry => entry.2.rows options.typeFieldName),
        row.IsLine := by
    intro entries
    refine forall_spaced List.not_mem_nil fun rows hmem => ?_
    obtain ⟨entry, -, rfl⟩ := List.mem_map.mp hmem
    exact entry.2.isLine_rows _
  simp only [ModuleTemplate.rows, ModuleParts.template, List.forall_mem_append,
    List.forall_mem_singleton]
  have hfixed : ∀ s, ∀ row ∈ (splitLines s).map Row.fixed, row.IsLine :=
    fun s => (AllFixed.fixedRows s).isLine
  exact ⟨⟨⟨⟨⟨hfixed _, trivial⟩, hfixed _⟩, hblocks _⟩, hfixed _⟩,
    hblocks _⟩

/-- The rows of a module that are left to the wording: the import and two for each
declaration. -/
theorem ModuleTemplate.countP_rows {options : Options} {documents nested : List Node}
    {template : ModuleTemplate} (hdocuments : BlocksOf options documents template.documents)
    (hnested : BlocksOf options nested template.nested) :
    template.rows.countP Row.isHole = 1 + 2 * (documents.length + nested.length) := by
  have hfixed : ∀ lines : List String, (lines.map Row.fixed).countP Row.isHole = 0 := by
    intro lines
    rw [List.countP_map, List.countP_eq_zero]
    exact fun _ _ => Bool.false_ne_true
  have himport : [Row.adapterImport].countP Row.isHole = 1 := rfl
  simp only [ModuleTemplate.rows, List.countP_append, hfixed, himport,
    countP_spaced hdocuments.countP_isHole, countP_spaced hnested.countP_isHole,
    hdocuments.length_eq, hnested.length_eq]
  omega

theorem wordedApart_local_contentful : WordedApart .localFiles .contentful := by
  intro row h
  cases row with
  | fixed s => cases h
  | _ => decide

/-- **An adapter changes its own lines only.** Either all adapters stop with the same
fault, or all modules are made of one template, in which the import is a row and each
definition has a row for the comment on the identifier and one for the type of the raw
payload. The modules of local files and of Contentful have as many lines, and differ
in these rows. -/
theorem moduleOf_adapters (options : Options) (schema : Schema) :
    (∃ fault, ∀ adapter : Adapter,
      moduleOf { options with adapter := adapter } schema = .error fault) ∨
    ∃ template : ModuleTemplate,
      (∀ adapter : Adapter, moduleOf { options with adapter := adapter } schema
        = .ok (fillRows adapter.wording template.rows)) ∧
      BlocksOf options schema.documents.definitions template.documents ∧
      BlocksOf options schema.nested.definitions template.nested ∧
      let lines (adapter : Adapter) :=
        (fillRows adapter.wording template.rows).toList.splitOn '\n'
      (lines .localFiles).length = (lines .contentful).length ∧
      (∀ i : ℕ, (lines .localFiles)[i]? ≠ (lines .contentful)[i]? ↔
        ∃ row, template.rows[i]? = some row ∧ row.isHole = true) ∧
      ((lines .localFiles).zip (lines .contentful)).countP (fun pair => pair.1 != pair.2)
        = 1 + 2 * (schema.documents.length + schema.nested.length) := by
  have hmodule : ∀ adapter : Adapter, moduleOf { options with adapter := adapter } schema
      = ModuleParts.text { options with adapter := adapter }
        <$> modulePartsOf options.typeFieldName schema :=
    fun adapter => moduleOf_eq_map { options with adapter := adapter } schema
  cases hparts : modulePartsOf options.typeFieldName schema with
  | error fault =>
    refine .inl ⟨fault, fun adapter => ?_⟩
    rw [hmodule, hparts, map_error]
  | ok parts =>
    obtain ⟨hdocuments, hnested⟩ := ModuleParts.blocksOf_template hparts
    have hcount : (parts.template options).rows.countP Row.isHole
        = 1 + 2 * (schema.documents.length + schema.nested.length) := by
      rw [ModuleTemplate.countP_rows hdocuments hnested, Registry.definitions, List.length_map,
        Registry.definitions, List.length_map]
    refine .inr ⟨parts.template options, fun adapter => ?_, hdocuments, hnested, ?_⟩
    · rw [hmodule, hparts, map_ok]
      exact congrArg Except.ok (fillRows_module { options with adapter := adapter } parts).symm
    · rw [← hcount]
      exact differing_lines rfl rfl wordedApart_local_contentful (parts.isLine_template options)

end TypeScript
end ContentDecl
