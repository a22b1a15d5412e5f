/-
# The listings of a module agree

A module lists the definitions of each section four times: as lines of a map, as
members of a union of types, as literals of a union of names and as declarations.
All four are made of the same definitions in the same order, the order of the
names, each definition once; everything else in a module is the same in every
module, but for the banner and the import of the adapter.

`layout` is what all modules have in common, with places for the rest.

Key definitions: `Listing`, `Place`, `layout`, `fill`, `Listing.text`, `Listed`.
Key theorems: `moduleText_eq_fill`, `unions_never_iff`, `listed_of_mapM`,
`moduleOf_eq_fill`, `moduleOf_listings`.
-/
import ContentDecl.Proofs.Rendering.NameOrder

namespace ContentDecl
namespace TypeScript

open Result

/-! ### What modules have in common -/

/-- The ways in which the definitions of a section are listed. -/
inductive Listing where
  | map
  | types
  | names
  | declarations
  deriving DecidableEq, Repr

/-- The places of a module that are not the same in every module. -/
inductive Place where
  | banner
  | adapterImport
  | listing (kind : Listing) (part : Section)

/-- A piece of a module. -/
inductive Piece where
  | fixed (s : String)
  | hole (place : Place)

def Piece.text (content : Place → String) : Piece → String
  | fixed s => s
  | hole place => content place

/-- The text of some pieces, with contents for the places. -/
def fill (content : Place → String) (pieces : List Piece) : String :=
  String.join (pieces.map (·.text content))

theorem fill_fixed (content : Place → String) (s : String) : fill content [.fixed s] = s := by
  rw [fill, List.map_singleton, String.join_cons, String.join_nil, String.append_empty, Piece.text]

theorem fill_append (content : Place → String) (pieces others : List Piece) :
    fill content (pieces ++ others) = fill content pieces ++ fill content others := by
  rw [fill, List.map_append, String.join_append, fill, fill]

def headPieces : List Piece :=
  [.hole .banner, .fixed "import type \x7b Markdown, MDX \x7d from 'contentlayer/core'\n",
    .hole .adapterImport, .fixed preamble]

def mapPieces (title : String) (part : Section) : List Piece :=
  [.fixed ("\nexport type " ++ title ++ " = \x7b\n"), .hole (.listing .map part), .fixed "\x7d\n"]

def unionPieces (typesTitle namesTitle : String) (part : Section) : List Piece :=
  [.fixed ("\nexport type " ++ typesTitle ++ " = "), .hole (.listing .types part),
    .fixed ("\nexport type " ++ namesTitle ++ " = "), .hole (.listing .names part), .fixed "\n"]

def declarationPieces (title : String) (part : Section) : List Piece :=
  [.fixed ("\n/** " ++ title ++ " */\n"), .hole (.listing .declarations part)]

/-- Every module, with its places. -/
def layout : List Piece :=
  headPieces
    ++ mapPieces "DocumentTypeMap" .documents
    ++ mapPieces "NestedTypeMap" .nested
    ++ [.fixed ("\nexport type AllTypes = DocumentTypes | NestedTypes\n"
      ++ "export type AllTypeNames = DocumentTypeNames | NestedTypeNames\n")]
    ++ unionPieces "DocumentTypes" "DocumentTypeNames" .documents
    ++ unionPieces "NestedTypes" "NestedTypeNames" .nested
    ++ declarationPieces "Document types" .documents
    ++ declarationPieces "Nested types" .nested

/-! ### What the listings say -/

/-- One line of a map. -/
def mapLine (name : String) : String := "  " ++ name ++ ": " ++ name ++ "\n"

/-- The members of a union between bars; of none, the type without values. -/
def alternatives : List String → String
  | [] => "never"
  | type :: types => String.intercalate " | " (type :: types)

/-- Texts on lines of their own, with one blank line between two of them. -/
def paragraphs : List String → String
  | [] => ""
  | [text] => text ++ "\n"
  | text :: next :: texts => text ++ "\n" ++ "\n" ++ paragraphs (next :: texts)

/-- A text that has no blank line before it or behind it where it stands on lines of
its own: it does not begin with a line break, and it ends with a brace. -/
structure Unpadded (text : String) : Prop where
  first : text.toList.head? ≠ some '\n'
  last : text.toList.getLast? = some '\x7d'

/-- What a listing of definitions says, each of which has its declaration. -/
def Listing.text (nodes : List Node) (texts : List String) : Listing → String
  | map => String.join (nodes.map fun node => mapLine node.nameText)
  | types => alternatives (nodes.map fun node => node.nameText)
  | names => alternatives (nodes.map fun node => literal node.nameText)
  | declarations => paragraphs texts

/-- What the places of a module hold. -/
def content (options : Options) (sorted : Section → List Node)
    (declarations : Section → List String) : Place → String
  | .banner => if options.banner.isTrue then banner else ""
  | .adapterImport => options.adapter.wording.importLine?.elim "" (· ++ "\n")
  | .listing kind part => kind.text (sorted part) (declarations part)

/-- Definitions are listed in an order, and with the declarations in this order. -/
structure Listed (options : Options) (definitions sorted : List Node)
    (declarations : List String) : Prop where
  order : InNameOrder definitions sorted
  declared : List.Forall₂ (fun node text => declaration options node = .ok text) sorted declarations
  unpadded : ∀ text ∈ declarations, Unpadded text
  never : (Listing.types.text sorted declarations = "never" ∧
    Listing.names.text sorted declarations = "never") ↔ definitions = []

theorem unionText_eq_alternatives (types : List String) : unionText types = alternatives types := by
  cases types <;> rfl

theorem paragraphs_cons : ∀ (text : String) (texts : List String),
    String.intercalate "\n\n" (text :: texts) ++ "\n" = paragraphs (text :: texts)
  | text, [] => by
    rw [String.intercalate_singleton, paragraphs]
  | text, next :: texts => by
    have hblank : "\n\n" = "\n" ++ "\n" := rfl
    rw [String.intercalate_cons_cons, paragraphs, ← paragraphs_cons next texts, hblank]
    simp only [String.append_assoc]

theorem declarationsText_eq_paragraphs (title : String) (texts : List String) :
    declarationsText title texts = "\n/** " ++ title ++ " */\n" ++ paragraphs texts := by
  cases texts with
  | nil => rfl
  | cons text texts =>
    rw [← paragraphs_cons]
    rfl

section Filling

variable (options : Options) (sorted : Section → List Node) (declarations : Section → List String)
  (part : Section)

theorem mapText_eq_fill (title : String) :
    mapText title ((sorted part).map Node.nameText)
      = fill (content options sorted declarations) (mapPieces title part) := by
  unfold mapText
  simp [fill, mapPieces, Piece.text, content, Listing.text, mapLine, Function.comp_def,
    String.append_assoc]

theorem unionsText_eq_fill (typesTitle namesTitle : String) :
    unionsText typesTitle namesTitle ((sorted part).map Node.nameText)
      = fill (content options sorted declarations) (unionPieces typesTitle namesTitle part) := by
  unfold unionsText
  simp [unionText_eq_alternatives, fill, unionPieces, Piece.text, content, Listing.text,
    Function.comp_def, String.append_assoc]

theorem declarationsText_eq_fill (title : String) :
    declarationsText title (declarations part)
      = fill (content options sorted declarations) (declarationPieces title part) := by
  simp [declarationsText_eq_paragraphs, fill, declarationPieces, Piece.text, content, Listing.text]

/-- A module is the layout with its places filled. -/
theorem moduleText_eq_fill :
    moduleText options ((sorted .documents).map Node.nameText) ((sorted .nested).map Node.nameText)
        (declarations .documents) (declarations .nested)
      = fill (content options sorted declarations) layout := by
  have hhead : fill (content options sorted declarations) headPieces
      = (if options.banner.isTrue then banner else "")
        ++ "import type \x7b Markdown, MDX \x7d from 'contentlayer/core'\n"
        ++ options.adapter.wording.importLine?.elim "" (· ++ "\n")
        ++ preamble := by
    simp [fill, headPieces, Piece.text, content, String.append_assoc]
  simp only [layout, fill_append, fill_fixed, hhead]
  simp only [← mapText_eq_fill, ← unionsText_eq_fill, ← declarationsText_eq_fill]
  unfold moduleText
  simp only [String.append_assoc]

end Filling

/-! ### Declarations and unions -/

theorem unpadded_declarationText (description name : Json) (options : Options)
    (lines : List String) : Unpadded (declarationText description name options lines) where
  first := by
    unfold declarationText comment
    split <;> simp
  last := by
    unfold declarationText
    rw [String.toList_append, List.getLast?_append]
    rfl

theorem unpadded_of_declaration {options : Options} {node : Node} {text : String}
    (h : declaration options node = .ok text) : Unpadded text := by
  obtain ⟨lines, -, h⟩ := bind_eq_ok.mp h
  obtain ⟨description, -, h⟩ := bind_eq_ok.mp h
  obtain rfl := pure_eq_ok.mp h
  exact unpadded_declarationText description _ options lines

/-- A union of literals begins with a quote. -/
theorem alternatives_literals_ne_never (s : String) (types : List String) :
    alternatives (literal s :: types) ≠ "never" := by
  have hquote : ∃ cs, (alternatives (literal s :: types)).toList = '\x27' :: cs := by
    cases types with
    | nil =>
      rw [alternatives, String.intercalate_singleton, literal, String.toList_ofList]
      exact ⟨_, rfl⟩
    | cons type types =>
      rw [alternatives, String.intercalate_cons_cons, literal]
      simp
  intro hnever
  obtain ⟨cs, hcs⟩ := hquote
  rw [hnever] at hcs
  simp at hcs

/-- Both unions are the type without values if and only if nothing is listed. -/
theorem unions_never_iff (nodes : List Node) (texts : List String) :
    (Listing.types.text nodes texts = "never" ∧ Listing.names.text nodes texts = "never")
      ↔ nodes = [] := by
  cases nodes with
  | nil => exact ⟨fun _ => rfl, fun _ => ⟨rfl, rfl⟩⟩
  | cons node nodes =>
    constructor
    · rintro ⟨-, hnames⟩
      exact absurd hnames (alternatives_literals_ne_never _ _)
    · nofun

/-- Definitions in the order of their names that are declared are listed. -/
theorem listed_of_mapM {options : Options} {definitions sorted : List Node} {texts : List String}
    (horder : InNameOrder definitions sorted)
    (h : sorted.mapM (declaration options) = .ok texts) :
    Listed options definitions sorted texts := by
  refine ⟨horder, mapM_eq_ok_iff.mp h, fun text hmem => ?_, ?_⟩
  · obtain ⟨node, -, hnode⟩ := exists_of_mem_mapM h text hmem
    exact unpadded_of_declaration hnode
  · rw [unions_never_iff]
    constructor
    · intro hnil
      exact (hnil ▸ horder.perm).nil_eq.symm
    · intro hnil
      exact (hnil ▸ horder.perm).eq_nil

/-- A module that is rendered is the layout filled with the declarations of its
definitions, each section in the order of the names. -/
theorem moduleOf_eq_fill {options : Options} {schema : Schema} {text : String}
    (hnames : ∀ part, ∀ node ∈ (schema.registry part).definitions, HasTextName node)
    (h : moduleOf options schema = .ok text) :
    ∃ (sorted : Section → List Node) (declarations : Section → List String),
      (∀ part, InNameOrder (schema.registry part).definitions (sorted part)) ∧
      (∀ part, (sorted part).mapM (declaration options) = .ok (declarations part)) ∧
      text = fill (content options sorted declarations) layout := by
  obtain ⟨sorted, hsorted, hmodule⟩ := moduleOf_texts hnames
  rw [hmodule options] at h
  obtain ⟨documents, hdocuments, h⟩ := bind_eq_ok.mp h
  obtain ⟨nested, hnested, h⟩ := bind_eq_ok.mp h
  obtain rfl := pure_eq_ok.mp h
  refine ⟨sorted, bySection documents nested, hsorted, fun part => ?_, ?_⟩
  · cases part with
    | documents => exact hdocuments
    | nested => exact hnested
  · exact moduleText_eq_fill options sorted (bySection documents nested)

/-- **All listings of a module agree.** A module that is rendered is the layout with
its places filled, and the four listings of a section are made of its definitions in
the order of their names. -/
theorem moduleOf_listings {options : Options} {schema : Schema} {text : String}
    (hnames : ∀ part, ∀ node ∈ (schema.registry part).definitions, HasTextName node)
    (h : moduleOf options schema = .ok text) :
    ∃ (sorted : Section → List Node) (declarations : Section → List String),
      (∀ part, Listed options (schema.registry part).definitions (sorted part)
        (declarations part)) ∧
      text = fill (content options sorted declarations) layout := by
  obtain ⟨sorted, declarations, hsorted, hdeclared, hfill⟩ := moduleOf_eq_fill hnames h
  exact ⟨sorted, declarations, fun part => listed_of_mapM (hsorted part) (hdeclared part), hfill⟩

/-- Three document types under other keys than their names, two of them of one name. -/
def indexDocuments : List Node :=
  [.document (.str "Post") (.group []) (.group []) .null (.obj []),
    .document (.str "Author") (.group []) (.group []) (.str "A") (.obj []),
    .document (.str "Author") (.group []) (.group []) (.str "B") (.obj [])]

def indexSchema : Schema :=
  { documents := (["one", "two", "three"].map Json.str).zip indexDocuments }

/-- The definitions of this schema in the order of their names. -/
def indexOrder : Section → List Node
  | .documents => [.document (.str "Author") (.group []) (.group []) (.str "A") (.obj []),
      .document (.str "Author") (.group []) (.group []) (.str "B") (.obj []),
      .document (.str "Post") (.group []) (.group []) .null (.obj [])]
  | .nested => []

theorem indexSchema_listed :
    (∀ part, ∀ node ∈ (indexSchema.registry part).definitions, HasTextName node) ∧
    ∃ text declarations, moduleOf {} indexSchema = .ok text ∧
      (∀ part, Listed {} (indexSchema.registry part).definitions (indexOrder part)
        (declarations part)) ∧
      text = fill (content {} indexOrder declarations) layout := by
  have hdocuments : (indexSchema.registry .documents).definitions = indexDocuments := rfl
  have hnames : ∀ part, ∀ node ∈ (indexSchema.registry part).definitions, HasTextName node := by
    intro part
    cases part with
    | documents => simp [hdocuments, indexDocuments, HasTextName, Node.name?]
    | nested => nofun
  have hok : ∀ part, ∀ node ∈ (indexSchema.registry part).definitions,
      ∃ text, declaration {} node = .ok text := by
    intro part
    cases part with
    | documents =>
      rw [hdocuments]
      intro node hmem
      rcases hmem with _ | ⟨_, _ | ⟨_, _ | ⟨_, ⟨⟩⟩⟩⟩ <;> exact ⟨_, rfl⟩
    | nested => nofun
  have horder : ∀ part, InNameOrder (indexSchema.registry part).definitions (indexOrder part) := by
    intro part
    cases part with
    | documents =>
      refine ⟨List.perm_append_singleton _ [_, _], ?_, fun name => ?_⟩
      · simp [indexOrder]
      · rw [hdocuments, indexOrder, indexDocuments]
        by_cases hauthor : "Author" = name
        · simp [← hauthor]
        · simp [List.filter_cons, hauthor]
    | nested => exact ⟨.nil, .nil, fun _ => rfl⟩
  obtain ⟨text, htext⟩ := exists_moduleOf hnames hok
  obtain ⟨sorted, declarations, hlisted, hfill⟩ := moduleOf_listings hnames htext
  have hsorted : sorted = indexOrder :=
    funext fun part => (hlisted part).order.unique (horder part)
  rw [hsorted] at hlisted hfill
  exact ⟨hnames, text, declarations, htext, hlisted, hfill⟩

end TypeScript
end ContentDecl
