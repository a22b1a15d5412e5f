/-
# Extensions show in comments only

The extensions of a definition are read in one place: a document type without a
description is described by its label. So a definition is declared as it is without its
extensions, but for the comment that a label gives it; and neither the names nor their
order depend on extensions. Two schemas that are the same but for extensions are
therefore rendered to the same text once the comments of labels are cut from both. If no
document type falls back on its label, they are rendered alike, to a text or a fault.

The step is one definition (`declaration_unextended`). It comes to a whole module through
the order of the names, which a change that keeps the names keeps: also where the names
are no texts, so that they may have no order (`byName_map`).

Key definitions: `Node.unextended`, `Schema.unextended`, `LabelCut`, `IsCutModule`,
`WithoutLabels`.
Key theorems: `declareAll_map`, `declaration_unextended`, `moduleOf_unextended`,
`extensions_only_label`.
-/
import ContentDecl.Proofs.Rendering.DeclarationLayout
import ContentDecl.Proofs.Rendering.Listings
import ContentDecl.Proofs.Sorting.Images

namespace ContentDecl

open Result TypeScript

/-! ### Definitions without their extensions -/

/-- A definition without extensions. -/
def Node.unextended : Node → Node
  | .document name fields computedFields description _ =>
    .document name fields computedFields description (.obj [])
  | .nestedType name fields description _ => .nestedType name fields description (.obj [])
  | node => node

@[simp] theorem Node.name?_unextended (node : Node) : node.unextended.name? = node.name? := by
  cases node <;> rfl

@[simp] theorem Node.nameText_unextended (node : Node) :
    node.unextended.nameText = node.nameText := by
  rw [nameText, nameText, name?_unextended]

def Registry.unextended (registry : Registry) : Registry :=
  registry.map fun entry => (entry.1, entry.2.unextended)

theorem Registry.definitions_unextended (registry : Registry) :
    registry.unextended.definitions = registry.definitions.map Node.unextended := by
  simp [definitions, unextended]

/-- A schema whose definitions have no extensions. -/
def Schema.unextended (schema : Schema) : Schema :=
  ⟨schema.documents.unextended, schema.nested.unextended⟩

theorem Schema.definitions_unextended (schema : Schema) (part : Section) :
    (schema.unextended.registry part).definitions
      = (schema.registry part).definitions.map Node.unextended := by
  cases part <;> exact Registry.definitions_unextended _

namespace TypeScript

variable {options : Options}

/-! ### Changes that keep the names -/

section Change

variable {f : Node → Node}

theorem byName_map (entries : List (Json × Node)) :
    byName (entries.map (Prod.map id f)) = List.map (Prod.map id f) <$> byName entries := by
  have hall : (entries.map (Prod.map id f)).all (fun entry => entry.1.isText)
      = entries.all fun entry => entry.1.isText := by
    rw [List.all_map]
    rfl
  unfold byName
  rw [hall]
  by_cases htexts : (entries.all fun entry => entry.1.isText) = true
  · have hsorted := List.map_mergeSort (r := fun a b : Json × Node => !(b.1.less? a.1 == some true))
      (s := fun a b : Json × Node => !(b.1.less? a.1 == some true)) (f := Prod.map id f)
      (l := entries) fun _ _ _ _ => rfl
    rw [if_pos htexts, if_pos htexts, map_ok, hsorted]
  · rw [if_neg htexts, if_neg htexts, Sorting.sort?_map]
    simp only [Prod.map_fst, id_eq]
    cases Sorting.sort? (fun a b : Json × Node => a.1.less? b.1) entries <;> rfl

variable (hname : ∀ node, (f node).name? = node.name?)
include hname

theorem inOrder_map (nodes : List Node) :
    inOrder (nodes.map f) = List.map (Prod.map id f) <$> inOrder nodes := by
  have hnamed : ∀ node, named (f node) = Prod.map id f <$> named node := by
    intro node
    unfold named
    rw [hname]
    cases node.name? <;> rfl
  unfold inOrder
  rw [List.mapM_map]
  simp only [Function.comp_def, hnamed]
  rw [mapM_map named (Prod.map id f) nodes]
  cases nodes.mapM named with
  | error fault => rfl
  | ok entries => exact byName_map entries

/-- A change that keeps the names and the declarations of definitions keeps what they are
declared to, or the fault. -/
theorem declareAll_map {nodes : List Node}
    (h : ∀ node ∈ nodes, declaration options (f node) = declaration options node) :
    declareAll options (nodes.map f) = declareAll options nodes := by
  rw [declareAll_eq, declareAll_eq, inOrder_map hname]
  cases hentries : inOrder nodes with
  | error fault => rfl
  | ok entries =>
    rw [map_ok, ok_bind, ok_bind, List.mapM_map]
    refine mapM_congr fun entry hmem => ?_
    have hsame := h entry.2 (mem_of_inOrder hentries hmem).1
    rw [Function.comp_apply, Prod.map_fst, Prod.map_snd, hsame]
    rfl

end Change

/-! ### Labels -/

/-- The line that opens the declaration of a type. -/
def openingLine (name : Json) : String := "export type " ++ name.text ++ " = \x7b\n"

/-- The declaration of a definition, and what is left of it without the comment of a label.
There is such a comment only before a document type that has no description, directly
before the line that opens the declaration, and only if the label says something. -/
inductive LabelCut : Node → String → String → Prop
  | label {name : Json} {fields computedFields : Node} {description extensions : Json}
    {rest : String} (hbare : description.isTrue = false)
    (hlabel : (labelIn extensions name).isTrue = true) :
    LabelCut (.document name fields computedFields description extensions)
      ("/** " ++ (labelIn extensions name).text ++ " */\n" ++ (openingLine name ++ rest))
      (openingLine name ++ rest)
  | noLabel {name : Json} {fields computedFields : Node} {description extensions : Json}
    {rest : String} (hbare : description.isTrue = false)
    (hlabel : (labelIn extensions name).isTrue = false) :
    LabelCut (.document name fields computedFields description extensions)
      (openingLine name ++ rest) (openingLine name ++ rest)
  | described {name : Json} {fields computedFields : Node} {description extensions : Json}
    {text : String} (hdescribed : description.isTrue = true) :
    LabelCut (.document name fields computedFields description extensions) text text
  | nestedType {name : Json} {fields : Node} {description extensions : Json} {text : String} :
    LabelCut (.nestedType name fields description extensions) text text

/-- A definition that does not fall back on its label. -/
def Described : Node → Prop
  | .document _ _ _ description _ => description.isTrue = true
  | _ => True

theorem described_unextended (node : Node) : Described node.unextended ↔ Described node := by
  cases node <;> rfl

/-- Without extensions there is no label; the name still has to be one to look for. -/
theorem extensionLabel_empty {extensions typeName label : Json}
    (h : extensionLabel extensions typeName = .ok label) :
    extensionLabel (.obj []) typeName = .ok .null := by
  have hkey : typeName.isKey = true := by
    cases extensions with
    | obj outer =>
      simp only [extensionLabel, ok_bind] at h
      obtain ⟨stackbit, -, h⟩ := bind_eq_ok.mp h
      obtain ⟨fields, -, h⟩ := bind_eq_ok.mp h
      obtain ⟨entry, hentry, -⟩ := bind_eq_ok.mp h
      unfold memberAt at hentry
      split at hentry
      · cases hentry
      · rename_i hkey
        simpa using hkey
    | _ => cases h
  have hnull : memberAt [] typeName = .ok .null := by
    unfold memberAt
    rw [hkey]
    cases typeName <;> rfl
  have hempty : membersOf .null = .ok [] := rfl
  have hmember : ∀ name, Json.member [] name = .null := fun _ => rfl
  simp only [extensionLabel, ok_bind, hmember, hempty, hnull, pure_eq_ok]

/-- The comment of a declaration stands before all the rest. -/
theorem declarationText_comment (description name : Json) (lines : List String) :
    declarationText description name options lines
      = comment description "" ++ declarationText .null name options lines := by
  have hnull : comment .null "" = "" := rfl
  unfold declarationText
  rw [hnull, String.empty_append]
  simp only [String.append_assoc]

theorem declarationText_null (name : Json) (options : Options) (lines : List String) :
    ∃ rest, declarationText .null name options lines = openingLine name ++ rest := by
  have hlead : leadLines .null = [] := rfl
  have hline : " = \x7b\n" = " = \x7b" ++ "\n" := rfl
  rw [declarationText_eq_laidOut, laidOut, hlead, List.nil_append]
  simp only [List.cons_append, List.nil_append]
  rw [String.intercalate_cons_cons, openingLine, hline, ← String.append_assoc]
  exact ⟨_, rfl⟩

/-- **A definition is declared as it is without extensions, but for the comment of its
label.** -/
theorem declaration_unextended (node : Node) :
    Follows (LabelCut node) (declaration options node) (declaration options node.unextended) := by
  intro text h
  obtain ⟨lines, hlines, h⟩ := bind_eq_ok.mp h
  obtain ⟨about, habout, h⟩ := bind_eq_ok.mp h
  obtain rfl := pure_eq_ok.mp h
  cases node with
  | document name fields computedFields description extensions =>
    have hsame : declarationLines options.typeFieldName
        (Node.document name fields computedFields description extensions).unextended
          = .ok lines := hlines
    unfold declaration
    rw [hsame, ok_bind]
    rw [definitionComment] at habout
    by_cases hdescribed : description.isTrue = true
    · rw [if_pos hdescribed] at habout
      obtain rfl := Except.ok.inj habout
      rw [Node.unextended, definitionComment, if_pos hdescribed]
      exact ⟨_, rfl, .described hdescribed⟩
    · have hbare : description.isTrue = false := eq_false_of_ne_true hdescribed
      rw [if_neg hdescribed] at habout
      obtain rfl := extensionLabel_labelIn habout
      rw [Node.unextended, definitionComment, if_neg hdescribed, extensionLabel_empty habout]
      refine ⟨_, rfl, ?_⟩
      obtain ⟨rest, hrest⟩ := declarationText_null name options lines
      have hname : ∀ others,
          (Node.document name fields computedFields description others).name?.getD .null = name :=
        fun _ => rfl
      rw [hname, hname, declarationText_comment, hrest]
      by_cases hlabel : (labelIn extensions name).isTrue = true
      · have hcomment : comment (labelIn extensions name) ""
            = "/** " ++ (labelIn extensions name).text ++ " */\n" := by
          rw [comment, if_pos hlabel, String.empty_append]
        rw [hcomment]
        exact .label hbare hlabel
      · have hcomment : comment (labelIn extensions name) "" = "" := by
          rw [comment, if_neg hlabel]
        rw [hcomment, String.empty_append]
        exact .noLabel hbare (eq_false_of_ne_true hlabel)
  | nestedType name fields description extensions =>
    have hsame : declarationLines options.typeFieldName
        (Node.nestedType name fields description extensions).unextended = .ok lines := hlines
    obtain rfl := Except.ok.inj habout
    unfold declaration
    rw [hsame, ok_bind]
    exact ⟨_, rfl, .nestedType⟩
  | _ => cases habout

/-- A definition that does not fall back on its label is declared alike, or stops alike. -/
theorem declaration_of_described {node : Node} (h : Described node) :
    declaration options node.unextended = declaration options node := by
  cases node with
  | document name fields computedFields description extensions =>
    have hdescribed : description.isTrue = true := h
    have hcomment : ∀ others, definitionComment
        (.document name fields computedFields description others) = .ok description := by
      intro others
      rw [definitionComment, if_pos hdescribed]
    unfold declaration
    rw [Node.unextended, hcomment, hcomment]
    rfl
  | nestedType name fields description extensions => rfl
  | _ => rfl

/-! ### Modules -/

/-- A definition with its declaration and what is left of it without its label. -/
def IsCut (options : Options) (node : Node) (cut : String × String) : Prop :=
  declaration options node = .ok cut.1 ∧ LabelCut node cut.1 cut.2

/-- The layout filled with definitions in the order of their names and their declarations,
and the layout filled with the same, but for what is left of the declarations without
labels. -/
structure IsCutModule (options : Options) (schema : Schema) (sorted : Section → List Node)
    (cuts : Section → List (String × String)) (text kept : String) : Prop where
  order : ∀ part, InNameOrder (schema.registry part).definitions (sorted part)
  cut : ∀ part, List.Forall₂ (IsCut options) (sorted part) (cuts part)
  text : text = fill (content options sorted fun part => (cuts part).map (·.1)) layout
  kept : kept = fill (content options sorted fun part => (cuts part).map (·.2)) layout

/-- The text of a module and what is left of it without the comments of labels. -/
def WithoutLabels (options : Options) (schema : Schema) (text kept : String) : Prop :=
  ∃ sorted cuts, IsCutModule options schema sorted cuts text kept

theorem exists_cuts {nodes : List Node} {texts : List String}
    (h : nodes.mapM (declaration options) = .ok texts) :
    ∃ cuts : List (String × String), List.Forall₂ (IsCut options) nodes cuts ∧
      texts = cuts.map (·.1) ∧
      (nodes.map Node.unextended).mapM (declaration options) = .ok (cuts.map (·.2)) := by
  induction mapM_eq_ok_iff.mp h with
  | nil => exact ⟨[], .nil, rfl, rfl⟩
  | @cons node text nodes texts hone hrest ih =>
    obtain ⟨cuts, hcuts, rfl, hkept⟩ := ih (mapM_eq_ok_iff.mpr hrest)
    obtain ⟨kept, hsame, hcut⟩ := declaration_unextended node text hone
    refine ⟨(text, kept) :: cuts, .cons ⟨hone, hcut⟩ hcuts, rfl, ?_⟩
    exact mapM_cons_eq_ok.mpr ⟨kept, hsame, _, hkept, rfl⟩

/-- **A schema is rendered as it is without extensions, but for the comments of labels.** -/
theorem moduleOf_unextended (schema : Schema) :
    Follows (WithoutLabels options schema) (moduleOf options schema)
      (moduleOf options schema.unextended) := by
  intro text h
  have hnames := hasTextName_of_moduleOf h
  have hnames' : ∀ part, ∀ node ∈ (schema.unextended.registry part).definitions,
      HasTextName node := by
    intro part node hmem
    rw [Schema.definitions_unextended] at hmem
    obtain ⟨found, hfound, rfl⟩ := List.mem_map.mp hmem
    obtain ⟨s, hs⟩ := hnames part found hfound
    exact ⟨s, by rw [Node.name?_unextended, hs]⟩
  obtain ⟨sorted, declarations, hsorted, hdeclared, rfl⟩ := moduleOf_eq_fill hnames h
  choose cuts hcut htext hkept using fun part => exists_cuts (hdeclared part)
  obtain rfl : declarations = fun part => (cuts part).map (·.1) := funext htext
  have hsorted' : ∀ part, InNameOrder (schema.unextended.registry part).definitions
      ((sorted part).map Node.unextended) := by
    intro part
    rw [Schema.definitions_unextended]
    exact (hsorted part).map Node.nameText_unextended
  have hlisted : ∀ part, ((sorted part).map Node.unextended).map Node.nameText
      = (sorted part).map Node.nameText := by
    intro part
    simp [Function.comp_def]
  have hfill := moduleText_eq_fill options sorted fun part => (cuts part).map (·.2)
  have hmodule := moduleOf_eq_moduleText hnames' hsorted' hkept
  rw [hlisted, hlisted, hfill] at hmodule
  exact ⟨_, hmodule, sorted, cuts, hsorted, hcut, rfl, rfl⟩

theorem moduleOf_of_described {schema : Schema}
    (h : ∀ part, ∀ node ∈ (schema.registry part).definitions, Described node) :
    moduleOf options schema.unextended = moduleOf options schema := by
  have hsection : ∀ part, declareAll options (schema.unextended.registry part).definitions
      = declareAll options (schema.registry part).definitions := by
    intro part
    rw [Schema.definitions_unextended]
    exact declareAll_map Node.name?_unextended fun node hmem =>
      declaration_of_described (h part node hmem)
  have hdeclarations : Declarations.ofSchema options schema.unextended
      = Declarations.ofSchema options schema := by
    have hdocuments := hsection .documents
    have hnested := hsection .nested
    simp only [Schema.registry] at hdocuments hnested
    rw [Declarations.ofSchema, Declarations.ofSchema, hdocuments, hnested]
  rw [moduleOf, moduleOf, hdeclarations]

/-- **Extensions show in the comments of labels only.** Two schemas that are the same
without their extensions are rendered alike, to a text or a fault, if no document type
falls back on its label; and if both are rendered, the texts are the same once the
comments of labels are cut from both, namely that of the schema without extensions. -/
theorem extensions_only_label (options : Options) {schema other : Schema}
    (hsame : schema.unextended = other.unextended) :
    ((∀ part, ∀ node ∈ (schema.registry part).definitions, Described node) →
      moduleOf options schema = moduleOf options other) ∧
    ∀ text otherText, moduleOf options schema = .ok text →
      moduleOf options other = .ok otherText →
      ∃ kept, moduleOf options schema.unextended = .ok kept ∧
        WithoutLabels options schema text kept ∧ WithoutLabels options other otherText kept := by
  refine ⟨fun hdescribed => ?_, fun text otherText h hother => ?_⟩
  · have hdescribed' : ∀ part, ∀ node ∈ (other.registry part).definitions, Described node := by
      intro part node hmem
      have hmapped : node.unextended ∈ (schema.registry part).definitions.map Node.unextended := by
        rw [← Schema.definitions_unextended, hsame, Schema.definitions_unextended]
        exact List.mem_map_of_mem hmem
      obtain ⟨found, hfound, heq⟩ := List.mem_map.mp hmapped
      rw [← described_unextended, ← heq, described_unextended]
      exact hdescribed part found hfound
    rw [← moduleOf_of_described hdescribed, ← moduleOf_of_described hdescribed', hsame]
  · obtain ⟨kept, hkept, hcut⟩ := moduleOf_unextended schema text h
    obtain ⟨found, hfound, hcut'⟩ := moduleOf_unextended other otherText hother
    rw [← hsame, hkept] at hfound
    obtain rfl := Except.ok.inj hfound
    exact ⟨kept, hkept, hcut, hcut'⟩

/-- Extensions with a label for the type of a name. -/
def labelFor (name label : String) : Json :=
  .obj [("stackbit", .obj [("fields", .obj [(name, .obj [("label", .str label)])])])]

/-- A document type and a nested type with the same extensions. -/
def extendedSchema (description extensions : Json) : Schema where
  documents := [(.str "Post", .document (.str "Post") (.group [titleField]) (.group []) description
    extensions)]
  nested := [(.str "Cta", .nestedType (.str "Cta") (.group []) .null extensions)]

/-- What both definitions are, all definitions of the schema are. -/
theorem extendedSchema_forall {description extensions : Json} {p : Node → Prop}
    (hdocument : p (.document (.str "Post") (.group [titleField]) (.group []) description
      extensions))
    (hnested : p (.nestedType (.str "Cta") (.group []) .null extensions)) (part : Section) :
    ∀ node ∈ ((extendedSchema description extensions).registry part).definitions, p node := by
  intro node hmem
  cases part with
  | documents =>
    obtain rfl := List.mem_singleton.mp hmem
    exact hdocument
  | nested =>
    obtain rfl := List.mem_singleton.mp hmem
    exact hnested

/-- Its declarations, of which that of the document type has no comment. -/
def extendedPost : String :=
  "export type Post = \x7b\n  /** ID */\n  _id: string\n  _raw: Record<string, any>\n"
    ++ "  type: 'Post'\n  /** Shown */\n  title: string\n\x7d"

def extendedCta : String :=
  "export type Cta = \x7b\n  /** ID */\n  _id: string\n  _raw: Record<string, any>\n"
    ++ "  type: 'Cta'\n\x7d"

/-- Its module, with a comment before the declaration of the document type. -/
def extendedText (labelComment : String) : String :=
  "// NOTE This file is auto-generated by content_schema_to_ts. Do not edit it manually.\n\n"
    ++ "import type \x7b Markdown, MDX \x7d from 'contentlayer/core'\n"
    ++ ("\nexport \x7b isType \x7d from 'contentlayer/client'\n"
      ++ "\nexport type \x7b Markdown, MDX \x7d\n"
      ++ "\nexport interface ContentlayerGenTypes \x7b\n"
      ++ "  documentTypes: DocumentTypes\n"
      ++ "  documentTypeMap: DocumentTypeMap\n"
      ++ "  documentTypeNames: DocumentTypeNames\n"
      ++ "  nestedTypes: NestedTypes\n"
      ++ "  nestedTypeMap: NestedTypeMap\n"
      ++ "  nestedTypeNames: NestedTypeNames\n"
      ++ "  allTypeNames: AllTypeNames\n"
      ++ "\x7d\n")
    ++ "\nexport type DocumentTypeMap = \x7b\n  Post: Post\n\x7d\n"
    ++ "\nexport type NestedTypeMap = \x7b\n  Cta: Cta\n\x7d\n"
    ++ "\nexport type AllTypes = DocumentTypes | NestedTypes\n"
    ++ "export type AllTypeNames = DocumentTypeNames | NestedTypeNames\n"
    ++ "\nexport type DocumentTypes = Post\nexport type DocumentTypeNames = 'Post'\n"
    ++ "\nexport type NestedTypes = Cta\nexport type NestedTypeNames = 'Cta'\n"
    ++ ("\n/** Document types */\n" ++ (labelComment ++ extendedPost ++ "\n"))
    ++ ("\n/** Nested types */\n" ++ (extendedCta ++ "\n"))

theorem moduleText_extended (labelComment : String) :
    moduleText {} ["Post"] ["Cta"] [labelComment ++ extendedPost] [extendedCta]
      = extendedText labelComment := by
  have himport : ({} : Options).adapter.wording.importLine?.elim "" (· ++ "\n") = "" := rfl
  have hdocuments : ∀ text, declarationsText "Document types" [text]
      = "\n/** Document types */\n" ++ (text ++ "\n") := fun _ => rfl
  have hnested : ∀ text, declarationsText "Nested types" [text]
      = "\n/** Nested types */\n" ++ (text ++ "\n") := fun _ => rfl
  rw [moduleText, himport, String.append_empty, hdocuments, hnested]
  rfl

/-- Only the comment depends on the extensions. -/
theorem declaration_extendedPost {extensions label : Json}
    (h : extensionLabel extensions (.str "Post") = .ok label) :
    declaration {} (.document (.str "Post") (.group [titleField]) (.group []) .null extensions)
      = .ok (comment label "" ++ extendedPost) := by
  have hlines : declarationLines (.str "type") (.document (.str "Post") (.group [titleField])
      (.group []) .null extensions) = .ok ["  /** Shown */\n  title: string"] := by
    with_unfolding_all rfl
  have hcomment : definitionComment (.document (.str "Post") (.group [titleField]) (.group [])
      .null extensions) = .ok label := h
  have hbare : declarationText .null (.str "Post") {} ["  /** Shown */\n  title: string"]
      = extendedPost := by
    with_unfolding_all rfl
  change (declarationLines (.str "type") _ >>= fun lines => _) = _
  rw [hlines, ok_bind, hcomment, ok_bind, ← hbare, ← declarationText_comment]
  rfl

theorem declaration_extendedCta (extensions : Json) :
    declaration {} (.nestedType (.str "Cta") (.group []) .null extensions) = .ok extendedCta := by
  have hbare : declarationText .null (.str "Cta") {} [] = extendedCta := by
    with_unfolding_all rfl
  rw [← hbare]
  rfl

theorem moduleOf_extendedSchema {extensions label : Json} {labelComment : String}
    (hlabel : extensionLabel extensions (.str "Post") = .ok label)
    (hcomment : comment label "" = labelComment) :
    moduleOf {} (extendedSchema .null extensions) = .ok (extendedText labelComment) := by
  obtain rfl := hcomment
  have hdeclared : ∀ part, List.Forall₂ (fun node text => declaration {} node = .ok text)
      ((extendedSchema .null extensions).registry part).definitions
      (bySection [comment label "" ++ extendedPost] [extendedCta] part) := by
    intro part
    cases part with
    | documents => exact .cons (declaration_extendedPost hlabel) .nil
    | nested => exact .cons (declaration_extendedCta extensions) .nil
  rw [moduleOf_of_ascending (extendedSchema_forall ⟨"Post", rfl⟩ ⟨"Cta", rfl⟩) ?_ hdeclared]
  · exact congrArg Except.ok (moduleText_extended _)
  · intro part
    cases part <;> exact .cons nofun .nil

theorem extendedSchema_label :
    moduleOf {} (extendedSchema (.str "An article") (.arr []))
      = moduleOf {} (extendedSchema (.str "An article") (labelFor "Post" "Entry")) ∧
    moduleOf {} (extendedSchema .null (labelFor "Post" "Entry"))
      = .ok (extendedText "/** Entry */\n") ∧
    moduleOf {} (extendedSchema .null (.obj [])) = .ok (extendedText "") ∧
    WithoutLabels {} (extendedSchema .null (labelFor "Post" "Entry"))
      (extendedText "/** Entry */\n") (extendedText "") ∧
    WithoutLabels {} (extendedSchema .null (.obj [])) (extendedText "") (extendedText "") := by
  have hsame : ∀ description extensions others, (extendedSchema description extensions).unextended
      = (extendedSchema description others).unextended := fun _ _ _ => rfl
  have hlabelled : moduleOf {} (extendedSchema .null (labelFor "Post" "Entry"))
      = .ok (extendedText "/** Entry */\n") :=
    @moduleOf_extendedSchema _ (.str "Entry") _ rfl rfl
  have hbare : moduleOf {} (extendedSchema .null (.obj [])) = .ok (extendedText "") :=
    @moduleOf_extendedSchema _ .null _ rfl rfl
  obtain ⟨kept, hkept, hcut, hcut'⟩ := (extensions_only_label {} (hsame .null _ (.obj []))).2 _ _
    hlabelled hbare
  obtain rfl := Except.ok.inj (hkept.symm.trans hbare)
  exact ⟨(extensions_only_label {} (hsame _ _ _)).1 (extendedSchema_forall rfl trivial), hlabelled,
    hbare, hcut, hcut'⟩

end TypeScript
end ContentDecl
