/-
# The layout of a declaration

A declaration is a comment, if there is something to say, then a header, one block for
each member and a brace, with a line break between any two of them. The members are
the identifier, the raw payload and the type field, then the declared fields without
those of its name, and for a document type the computed ones.

A declared field with the name of the type field is passed over by its name alone,
before its kind is looked at. So definitions that differ in such fields only are
declared alike or stop alike: one edit leaves the fields that are kept as they were
(`SkippedEdit.kept_eq`), hence any number of them does.

Key definitions: `Block`, `blocksOf`, `BlockText`, `lead`, `SkippedEdit`.
Key theorems: `declarationLines_blocks`, `declarationText_eq_laidOut`,
`SkippedEdit.kept_eq`, `declaration_layout`.
-/
import ContentDecl.Proofs.Rendering.FirstFault
import ContentDecl.Proofs.Rendering.Template
import Mathlib.Logic.Relation

namespace ContentDecl
namespace TypeScript

open Result

variable {typeField : Json} {options : Options}

/-! ### Blocks -/

/-- A member of a declaration. -/
inductive Block where
  | identifier
  | payload
  | discriminant
  | declared (node : Node)
  | computed (node : Node)

def Block.isDiscriminant : Block → Bool
  | discriminant => true
  | _ => false

/-- The node of a block that is not in every declaration. -/
def Block.node? : Block → Option Node
  | declared node => some node
  | computed node => some node
  | _ => none

/-- The computed fields of a definition; a nested type has none. -/
def computedOf : Node → List Node
  | .document _ _ computed _ _ => computed.members?.getD []
  | _ => []

/-- The members of a definition in their order. -/
def blocksOf (typeField : Json) (definition : Node) : List Block :=
  [.identifier, .payload, .discriminant]
    ++ (declaredFields typeField definition).map .declared
    ++ (computedOf definition).map .computed

/-- The line that holds the name of the type. -/
def discriminantText (typeField typeName : Json) : String :=
  "  " ++ typeField.text ++ ": '" ++ typeName.text ++ "'"

/-- What a block of the definition of a name says. -/
inductive BlockText (options : Options) (typeName : Json) : Block → String → Prop
  | identifier : BlockText options typeName .identifier
      ("  /** " ++ options.adapter.wording.idComment ++ " */\n" ++ "  _id: string")
  | payload : BlockText options typeName .payload ("  _raw: " ++ options.adapter.wording.rawType)
  | discriminant : BlockText options typeName .discriminant
      (discriminantText options.typeFieldName typeName)
  | declared {head : Head} {kind : FieldKind} {type : Json} (h : kindType kind = .ok type) :
    BlockText options typeName (.declared (.field head kind)) (memberLine head type)
  | computed {node : Node} {name type description : Json} (hname : node.name? = some name)
    (hdescription : node.description? = some description) (hkind : node.kind? = some type) :
    BlockText options typeName (.computed node)
      (comment description indent ++ indent ++ name.text ++ ": " ++ type.text)

theorem fieldLine_eq_ok {node : Node} {line : String} : fieldLine node = .ok line ↔
    ∃ head kind type, node = .field head kind ∧ kindType kind = .ok type ∧
      memberLine head type = line := by
  cases node with
  | field head kind =>
    rw [fieldLine, map_eq_ok]
    constructor
    · rintro ⟨type, htype, hline⟩
      exact ⟨head, kind, type, rfl, htype, hline⟩
    · rintro ⟨_, _, type, ⟨⟩, htype, hline⟩
      exact ⟨type, htype, hline⟩
  | _ => simp [fieldLine]

theorem computedLine_eq_ok {typeName : Json} {node : Node} {line : String}
    (h : computedLine typeField typeName node = .ok line) :
    namedAs typeField node = false ∧ ∃ name description type, node.name? = some name ∧
      node.description? = some description ∧ node.kind? = some type ∧
      comment description indent ++ indent ++ name.text ++ ": " ++ type.text = line := by
  unfold computedLine at h
  split at h
  · cases h
  · rename_i name hname
    split at h
    · cases h
    · rename_i hne
      split at h
      · rename_i description type hdescription hkind
        refine ⟨?_, name, description, type, hname, hdescription, hkind, Except.ok.inj h⟩
        rw [namedAs, hname]
        simpa using hne
      · cases h

/-- The fields that are kept have a line each. -/
theorem declared_blocks {definition fields : Node} {nodes : List Node} {lines : List String}
    (hfields : definition.fields? = some fields) (hnodes : nodesOf fields = .ok nodes)
    (hlines : declaredLines typeField nodes = .ok lines) :
    List.Forall₂ (fun node line => fieldLine node = .ok line)
      (declaredFields typeField definition) lines := by
  rw [declaredLines_eq_mapM, mapM_eq_ok_iff] at hlines
  rw [declaredFields, hfields]
  cases fields with
  | group members =>
    obtain rfl : members = nodes := Except.ok.inj hnodes
    exact hlines
  | plain v =>
    -- The elements of a plain value are plain: they have no name, so they are kept, and no line.
    obtain ⟨vs, rfl⟩ : ∃ vs : List Json, nodes = vs.map Node.plain := by
      cases hvs : v.elements? with
      | none => simp [nodesOf, Node.members?, hvs] at hnodes
      | some vs => exact ⟨vs, by simpa [nodesOf, Node.members?, hvs] using hnodes.symm⟩
    cases vs with
    | nil => exact hlines
    | cons element rest =>
      rw [List.map_cons, List.filter_cons_of_pos rfl] at hlines
      cases hlines with
      | cons hline _ => cases hline
  | _ => cases hnodes

/-- **The lines of a definition are its blocks behind the type field**, none of which
has the name of that field. -/
theorem declarationLines_blocks {definition : Node} {name : Json} {lines : List String}
    (hname : definition.name? = some name)
    (h : declarationLines options.typeFieldName definition = .ok lines) :
    List.Forall₂ (BlockText options name)
        ((declaredFields options.typeFieldName definition).map .declared
          ++ (computedOf definition).map .computed) lines ∧
      ∀ node ∈ computedOf definition, namedAs options.typeFieldName node = false := by
  obtain ⟨fields, hfields⟩ : ∃ fields, definition.fields? = some fields := by
    cases hfields : definition.fields? with
    | none => simp [declarationLines, hfields] at h
    | some fields => exact ⟨fields, rfl⟩
  simp only [declarationLines, hfields] at h
  obtain ⟨nodes, hnodes, h⟩ := bind_eq_ok.mp h
  obtain ⟨declared, hdeclared, h⟩ := bind_eq_ok.mp h
  have hkept : List.Forall₂ (BlockText options name)
      ((declaredFields options.typeFieldName definition).map .declared) declared := by
    refine List.forall₂_map_left_iff.mpr ((declared_blocks hfields hnodes hdeclared).imp ?_)
    intro node line hline
    obtain ⟨head, kind, type, rfl, htype, rfl⟩ := fieldLine_eq_ok.mp hline
    exact .declared htype
  cases definition with
  | document typeName fields computed description extensions =>
    obtain rfl : typeName = name := Option.some.inj hname
    obtain ⟨members, hmembers, h⟩ := bind_eq_ok.mp h
    obtain ⟨texts, htexts, h⟩ := bind_eq_ok.mp h
    obtain rfl := Except.ok.inj h
    have hcomputed : computedOf (.document typeName fields computed description extensions)
        = members := by
      unfold nodesOf at hmembers
      split at hmembers
      · rename_i found hfound
        obtain rfl := Except.ok.inj hmembers
        rw [computedOf, hfound, Option.getD_some]
      · cases hmembers
    have hlines := mapM_eq_ok_iff.mp htexts
    rw [hcomputed]
    refine ⟨List.rel_append hkept (List.forall₂_map_left_iff.mpr (hlines.imp ?_)), ?_⟩
    · intro node line hline
      obtain ⟨-, fieldName, about, type, hfield, habout, hkind, rfl⟩ := computedLine_eq_ok hline
      exact .computed hfield habout hkind
    · intro node hmem
      obtain ⟨line, -, hline⟩ := exists_mem_of_mapM htexts node hmem
      exact (computedLine_eq_ok hline).1
  | shape fields =>
    cases hname
  | nestedType typeName fields description extensions =>
    obtain rfl := Except.ok.inj h
    exact ⟨by simpa [computedOf] using hkept, by simp [computedOf]⟩
  | _ => cases hfields

/-! ### The comment before a definition -/

/-- The label of a type under `stackbit.fields` of its extensions, null if there is none. -/
def labelIn (extensions typeName : Json) : Json :=
  match typeName with
  | .str name => (((extensions.setting "stackbit").setting "fields").setting name).setting "label"
  | _ => .null

/-- What there is to say before a definition: its description, or else for a document
type its label. -/
def lead : Node → Json
  | .document name _ _ description extensions =>
    if description.isTrue then description else labelIn extensions name
  | .nestedType _ _ description _ => description
  | _ => .null

theorem setting_of_membersOf {v : Json} {members : List (String × Json)}
    (h : membersOf v = .ok members) (name : String) :
    Json.member members name = v.setting name := by
  have hsettings : v.HoldsSettings := by
    intro htrue
    rw [membersOf, Json.orElse, if_pos htrue] at h
    split at h
    · exact ⟨_, rfl⟩
    · cases h
  obtain ⟨found, hfound, hmember⟩ := membersOf_eq_ok hsettings
  obtain rfl : found = members := Except.ok.inj (hfound.symm.trans h)
  exact hmember name

theorem extensionLabel_labelIn {extensions typeName label : Json}
    (h : extensionLabel extensions typeName = .ok label) : label = labelIn extensions typeName := by
  cases extensions with
  | obj outer =>
    simp only [extensionLabel, ok_bind] at h
    obtain ⟨stackbit, hstackbit, h⟩ := bind_eq_ok.mp h
    obtain ⟨fields, hfields, h⟩ := bind_eq_ok.mp h
    obtain ⟨entry, hentry, h⟩ := bind_eq_ok.mp h
    obtain ⟨settings, hsettings, h⟩ := bind_eq_ok.mp h
    obtain rfl := Except.ok.inj h
    unfold memberAt at hentry
    split at hentry
    · cases hentry
    · split at hentry
      · obtain rfl := Except.ok.inj hentry
        rw [setting_of_membersOf hsettings, setting_of_membersOf hfields,
          setting_of_membersOf hstackbit]
        rfl
      · obtain rfl := Except.ok.inj hentry
        rename_i hno
        obtain rfl : settings = [] := Except.ok.inj hsettings.symm
        unfold labelIn
        split
        · exact absurd rfl (hno _)
        · rfl
  | _ => cases h

theorem definitionComment_lead {definition : Node} {comment : Json}
    (h : definitionComment definition = .ok comment) :
    comment = lead definition ∧ ∃ name, definition.name? = some name := by
  cases definition with
  | document name fields computed description extensions =>
    rw [definitionComment] at h
    refine ⟨?_, name, rfl⟩
    rw [lead]
    split at h
    · rename_i htrue
      rw [if_pos htrue]
      exact (Except.ok.inj h).symm
    · rename_i hfalse
      rw [if_neg hfalse]
      exact extensionLabel_labelIn h
  | nestedType name fields description extensions => exact ⟨(Except.ok.inj h).symm, name, rfl⟩
  | _ => cases h

/-! ### The text of a declaration -/

/-- The line of a comment, if there is something to say. -/
def leadLines (comment : Json) : List String :=
  if comment.isTrue then ["/** " ++ comment.text ++ " */"] else []

/-- The declaration of a type by its blocks. -/
def laidOut (comment typeName : Json) (blocks : List String) : String :=
  String.intercalate "\n"
    (leadLines comment ++ ["export type " ++ typeName.text ++ " = \x7b"] ++ blocks ++ ["\x7d"])

/-- A last line behind lines that end in line breaks has only line breaks before it. -/
theorem unlines_append_last (last : String) : ∀ lines : List String,
    unlines lines ++ last = String.intercalate "\n" (lines ++ [last])
  | [] => by
    rw [List.nil_append, String.intercalate_singleton]
    exact String.empty_append
  | line :: lines => by
    have hrest := unlines_append_last last lines
    obtain ⟨next, others, hnext⟩ := List.exists_cons_of_ne_nil
      (List.append_ne_nil_of_right_ne_nil lines (List.cons_ne_nil last []))
    rw [List.cons_append, hnext, String.intercalate_cons_cons, ← hnext, ← hrest, unlines_cons]
    simp only [String.append_assoc]

theorem unlines_leadLines (description : Json) :
    unlines (leadLines description) = comment description "" := by
  have hend : " */\n" = " */" ++ "\n" := rfl
  unfold leadLines comment
  split
  · simp [hend, String.append_assoc]
  · rfl

theorem declarationText_eq_laidOut (description typeName : Json) (options : Options)
    (lines : List String) :
    declarationText description typeName options lines = laidOut description typeName
      (["  /** " ++ options.adapter.wording.idComment ++ " */\n" ++ "  _id: string",
        "  _raw: " ++ options.adapter.wording.rawType,
        discriminantText options.typeFieldName typeName] ++ lines) := by
  have hopen : " = \x7b\n" = " = \x7b" ++ "\n" := rfl
  have hid : "  _id: string\n" = "  _id: string" ++ "\n" := rfl
  have hquote : "'\n" = "'" ++ "\n" := rfl
  unfold declarationText
  rw [laidOut, ← unlines_append_last, ← unlines_leadLines, ← unlines, discriminantText]
  simp only [hopen, hid, hquote, unlines_append, unlines_cons, unlines_nil, List.cons_append,
    List.nil_append, String.append_assoc, String.append_empty]

/-! ### One line for the name of the type -/

/-- A text that can be told from what stands behind it in a line. -/
def IsWord (v : Json) : Prop := ∃ s, v = .str s ∧ ':' ∉ s.toList ∧ '/' ∉ s.toList

/-- A text is cut at its first colon in one way only. -/
theorem cut_at_colon : ∀ {cs ds rest others : List Char}, ':' ∉ cs → ':' ∉ ds →
    cs ++ ':' :: rest = ds ++ ':' :: others → cs = ds ∧ rest = others
  | [], [], _, _, _, _, h => ⟨rfl, (List.cons.inj h).2⟩
  | [], _ :: _, _, _, _, hds, h => absurd (List.cons.inj h).1 (List.ne_of_not_mem_cons hds)
  | _ :: _, [], _, _, hcs, _, h => absurd (List.cons.inj h).1.symm (List.ne_of_not_mem_cons hcs)
  | c :: cs, d :: ds, _, _, hcs, hds, h => by
    obtain ⟨rfl, htail⟩ := List.cons.inj h
    obtain ⟨rfl, hrest⟩ := cut_at_colon (List.not_mem_of_not_mem_cons hcs)
      (List.not_mem_of_not_mem_cons hds) htail
    exact ⟨rfl, hrest⟩

theorem toList_discriminantText (s : String) (typeName : Json) :
    (discriminantText (.str s) typeName).toList
      = ' ' :: ' ' :: (s.toList ++ ':' :: ' ' :: '\x27' :: (typeName.text.toList ++ ['\x27'])) := by
  simp [discriminantText, Json.text, String.toList_append]

/-- A comment does not begin like the line of the type's name. -/
theorem comment_ne_discriminantText (typeName : Json) (hword : IsWord typeField) (rest : String) :
    "  /** " ++ rest ≠ discriminantText typeField typeName := by
  obtain ⟨s, rfl, -, hslash⟩ := hword
  intro heq
  have hchars := congrArg String.toList heq
  rw [toList_discriminantText, String.toList_append] at hchars
  cases hs : s.toList with
  | nil => simp [hs] at hchars
  | cons c cs =>
    rw [hs] at hchars hslash
    obtain ⟨-, -, rfl, -⟩ : ' ' = ' ' ∧ ' ' = ' ' ∧ '/' = c ∧ _ := by simpa using hchars
    exact hslash List.mem_cons_self

/-- A line of another name is not the line of the type's name. -/
theorem line_ne_discriminantText (typeName : Json) (rest : String) {name : Json}
    (hword : IsWord typeField) (hname : IsWord name) (hne : name ≠ typeField) :
    "  " ++ name.text ++ ": " ++ rest ≠ discriminantText typeField typeName := by
  obtain ⟨s, rfl, hs, -⟩ := hword
  obtain ⟨t, rfl, ht, -⟩ := hname
  intro heq
  have hchars := congrArg String.toList heq
  rw [toList_discriminantText, String.toList_append, String.toList_append,
    String.toList_append] at hchars
  have hcut : t.toList ++ ':' :: (' ' :: rest.toList)
      = s.toList ++ ':' :: ' ' :: '\x27' :: (typeName.text.toList ++ ['\x27']) := by
    simpa [Json.text] using hchars
  obtain ⟨hst, -⟩ := cut_at_colon ht hs hcut
  exact hne (congrArg Json.str (String.toList_inj.mp hst))

theorem member_ne_discriminantText (typeName description : Json) (rest : String) {name : Json}
    (hword : IsWord typeField) (hname : IsWord name) (hne : name ≠ typeField) :
    comment description indent ++ ("  " ++ name.text ++ ": " ++ rest)
      ≠ discriminantText typeField typeName := by
  have hopen : indent ++ "/** " = "  /** " := rfl
  unfold comment
  split
  · rw [hopen, String.append_assoc, String.append_assoc]
    exact comment_ne_discriminantText typeName hword _
  · rw [String.empty_append]
    exact line_ne_discriminantText typeName rest hword hname hne

/-- The line of the raw payload is not the line of the type's name, not even for a type
field of the same name: no payload type is a literal. -/
theorem payload_ne_discriminantText (adapter : Adapter) (typeName : Json)
    (hword : IsWord typeField) :
    "  _raw: " ++ adapter.wording.rawType ≠ discriminantText typeField typeName := by
  obtain ⟨s, rfl, hs, -⟩ := hword
  intro heq
  have hchars := congrArg String.toList heq
  rw [toList_discriminantText, String.toList_append] at hchars
  have hcut : "_raw".toList ++ ':' :: (' ' :: adapter.wording.rawType.toList)
      = s.toList ++ ':' :: ' ' :: '\x27' :: (typeName.text.toList ++ ['\x27']) := by
    simpa using hchars
  obtain ⟨-, hrest⟩ := cut_at_colon (by decide) hs hcut
  have hquote : adapter.wording.rawType.toList.head? = some '\x27' := by
    rw [(List.cons.inj hrest).2]
    rfl
  cases adapter <;> exact absurd hquote (by decide)

/-- A node that has a word for a name, which is not the name of the type field. -/
def NamedApart (typeField : Json) (node : Node) : Prop :=
  ∃ name, node.name? = some name ∧ IsWord name ∧ name ≠ typeField

/-- A block without the name of the type field does not have its line. -/
theorem BlockText.ne_discriminantText {typeName : Json} {block : Block} {text : String}
    (h : BlockText options typeName block text) (hword : IsWord options.typeFieldName)
    (hblock : block.isDiscriminant = false)
    (hnode : ∀ node, block.node? = some node → NamedApart options.typeFieldName node) :
    text ≠ discriminantText options.typeFieldName typeName := by
  cases h with
  | identifier =>
    rw [String.append_assoc, String.append_assoc]
    exact comment_ne_discriminantText typeName hword _
  | payload => exact payload_ne_discriminantText _ typeName hword
  | discriminant => cases hblock
  | @declared head kind type htype =>
    obtain ⟨_, ⟨⟩, hname, hne⟩ := hnode _ rfl
    have hmember := member_ne_discriminantText typeName head.description
      (type.text ++ if head.isRequired.isTrue then "" else " | undefined") hword hname hne
    simpa only [memberLine, indent, String.append_assoc] using hmember
  | @computed node name type description hname hdescription hkind =>
    obtain ⟨found, hfound, hname', hne⟩ := hnode _ rfl
    obtain rfl : found = name := Option.some.inj (hfound.symm.trans hname)
    have hmember := member_ne_discriminantText typeName description type.text hword hname' hne
    simpa only [indent, String.append_assoc] using hmember

theorem count_discriminantText {typeName : Json} {blocks : List Block} {texts : List String}
    (h : List.Forall₂ (BlockText options typeName) blocks texts)
    (hword : IsWord options.typeFieldName)
    (hnodes : ∀ block ∈ blocks, ∀ node, block.node? = some node →
      NamedApart options.typeFieldName node) :
    texts.count (discriminantText options.typeFieldName typeName)
      = blocks.countP Block.isDiscriminant := by
  induction h with
  | nil => rfl
  | @cons block text blocks texts htext _ ih =>
    obtain ⟨hnode, hrest⟩ := List.forall_mem_cons.mp hnodes
    rw [List.count_cons, List.countP_cons, ih hrest]
    congr 1
    cases hblock : block.isDiscriminant with
    | true =>
      cases htext <;> first | rfl | cases hblock
      simp
    | false => simp [htext.ne_discriminantText hword hblock hnode]

theorem countP_blocksOf (typeField : Json) (definition : Node) :
    (blocksOf typeField definition).countP Block.isDiscriminant = 1 := by
  have hnodes : ∀ {f : Node → Block}, (∀ node, (f node).isDiscriminant = false) →
      ∀ nodes : List Node, (nodes.map f).countP Block.isDiscriminant = 0 := by
    intro f hf nodes
    simp [List.countP_eq_zero, hf]
  rw [blocksOf, List.countP_append, List.countP_append, hnodes fun _ => rfl, hnodes fun _ => rfl]
  rfl

/-! ### Fields of the name of the type field -/

/-- One change of a list of fields at one place, in a field of the name of the type
field. -/
inductive SkippedEdit (typeField : Json) : List Node → List Node → Prop
  | insert (before after : List Node) {node : Node} (h : namedAs typeField node = true) :
    SkippedEdit typeField (before ++ after) (before ++ node :: after)
  | delete (before after : List Node) {node : Node} (h : namedAs typeField node = true) :
    SkippedEdit typeField (before ++ node :: after) (before ++ after)
  | change (before after : List Node) {node other : Node} (h : namedAs typeField node = true)
    (hother : namedAs typeField other = true) :
    SkippedEdit typeField (before ++ node :: after) (before ++ other :: after)

/-- Any number of such changes. -/
abbrev SkippedEdits (typeField : Json) : List Node → List Node → Prop :=
  Relation.ReflTransGen (SkippedEdit typeField)

/-- One change keeps the same fields. -/
theorem SkippedEdit.kept_eq {nodes others : List Node} (h : SkippedEdit typeField nodes others) :
    (nodes.filter fun node => !namedAs typeField node)
      = others.filter fun node => !namedAs typeField node := by
  cases h with
  | insert before after h => simp [h]
  | delete before after h => simp [h]
  | change before after h hother => simp [h, hother]

/-- Any number of changes leave the lines of the fields, or the fault of one of them. -/
theorem declaredLines_of_edits {nodes others : List Node}
    (h : SkippedEdits typeField nodes others) :
    declaredLines typeField nodes = declaredLines typeField others := by
  induction h with
  | refl => rfl
  | tail _ hedit ih => rw [ih, declaredLines_eq_mapM, declaredLines_eq_mapM, hedit.kept_eq]

/-- A definition with other declared fields. -/
def withFields (definition fields : Node) : Node :=
  match definition with
  | .document name _ computed description extensions =>
    .document name fields computed description extensions
  | .nestedType name _ description extensions => .nestedType name fields description extensions
  | node => node

theorem declaration_withFields {definition fields others : Node} {nodes otherNodes : List Node}
    (hfields : fields.members? = some nodes) (hothers : others.members? = some otherNodes)
    (h : declaredLines options.typeFieldName nodes
      = declaredLines options.typeFieldName otherNodes) :
    declaration options (withFields definition fields)
      = declaration options (withFields definition others) := by
  cases definition with
  | document name old computed description extensions =>
    simp only [withFields, declaration, declarationLines, definitionComment, Node.fields?,
      Node.name?, nodesOf, hfields, hothers, ok_bind, h]
  | nestedType name old description extensions =>
    simp only [withFields, declaration, declarationLines, definitionComment, Node.fields?,
      Node.name?, nodesOf, hfields, hothers, ok_bind, h]
  | _ => rfl

/-! ### Declarations -/

/-- What a declaration that is rendered looks like: its blocks, each with its text, in the
layout of a declaration. There are three blocks and one for each field that is kept and
each computed field. None of these has the name of the type field, so the block of the
type field is the only one for it; and where names can be told from their types, no
other block has the text of that one. -/
structure IsLaidOut (options : Options) (definition : Node) (typeName : Json)
    (texts : List String) (text : String) : Prop where
  name : definition.name? = some typeName
  blocks : List.Forall₂ (BlockText options typeName) (blocksOf options.typeFieldName definition)
    texts
  text : text = laidOut (lead definition) typeName texts
  length : texts.length
    = 3 + (declaredFields options.typeFieldName definition).length + (computedOf definition).length
  discriminant : (blocksOf options.typeFieldName definition).countP Block.isDiscriminant = 1
  others : ∀ block ∈ blocksOf options.typeFieldName definition, ∀ node, block.node? = some node →
    namedAs options.typeFieldName node = false
  once : IsWord options.typeFieldName →
    (∀ block ∈ blocksOf options.typeFieldName definition, ∀ node, block.node? = some node →
      ∃ name, node.name? = some name ∧ IsWord name) →
    texts.count (discriminantText options.typeFieldName typeName) = 1

/-- A word that is not the name of the type field is another text. -/
theorem namedApart_of_not_namedAs {node : Node} (h : namedAs typeField node = false)
    (hname : ∃ name, node.name? = some name ∧ IsWord name) : NamedApart typeField node := by
  obtain ⟨name, hname, hword⟩ := hname
  refine ⟨name, hname, hword, ?_⟩
  rintro rfl
  obtain ⟨s, rfl, -, -⟩ := hword
  rw [namedAs, hname] at h
  simp [Json.equals, Json.isNaN, Json.agrees] at h

/-- What is declared is laid out. -/
theorem isLaidOut_of_declaration {definition : Node} {text : String}
    (h : declaration options definition = .ok text) :
    ∃ typeName texts, IsLaidOut options definition typeName texts text := by
  obtain ⟨lines, hlines, h⟩ := bind_eq_ok.mp h
  obtain ⟨about, habout, h⟩ := bind_eq_ok.mp h
  obtain ⟨rfl, typeName, hname⟩ := definitionComment_lead habout
  obtain ⟨hblocks, hcomputed⟩ := declarationLines_blocks hname hlines
  have hall : List.Forall₂ (BlockText options typeName) (blocksOf options.typeFieldName definition)
      (["  /** " ++ options.adapter.wording.idComment ++ " */\n" ++ "  _id: string",
        "  _raw: " ++ options.adapter.wording.rawType,
        discriminantText options.typeFieldName typeName] ++ lines) := by
    rw [blocksOf, List.append_assoc]
    exact .cons .identifier (.cons .payload (.cons .discriminant hblocks))
  have hothers : ∀ block ∈ blocksOf options.typeFieldName definition, ∀ node,
      block.node? = some node → namedAs options.typeFieldName node = false := by
    intro block hmem node hnode
    rw [blocksOf, List.append_assoc, List.mem_append, List.mem_append, List.mem_map,
      List.mem_map] at hmem
    rcases hmem with hmem | ⟨kept, hkept, rfl⟩ | ⟨found, hfound, rfl⟩
    · have hnone : ∀ block ∈ [Block.identifier, .payload, .discriminant], block.node? = none := by
        simp [Block.node?]
      rw [hnone block hmem] at hnode
      cases hnode
    · obtain rfl := Option.some.inj hnode
      obtain ⟨nodes, -, -, hnamed⟩ := mem_declaredFields_iff.mp hkept
      exact hnamed
    · obtain rfl := Option.some.inj hnode
      exact hcomputed _ hfound
  refine ⟨typeName, _, hname, hall, ?_, ?_, countP_blocksOf _ _, hothers, fun hword hnames => ?_⟩
  · rw [← declarationText_eq_laidOut, ← Except.ok.inj h, hname, Option.getD_some]
  · rw [← hall.length_eq]
    simp [blocksOf]
    omega
  · rw [count_discriminantText hall hword fun block hmem node hnode =>
      namedApart_of_not_namedAs (hothers block hmem node hnode) (hnames block hmem node hnode)]
    exact countP_blocksOf _ _

/-- **The layout of a declaration, and what does not count for it.** A declaration that
is rendered is laid out in its blocks; and whatever comes of a declaration, a text or a
fault, fields of the name of the type field can be put in, taken out and changed without
a change of it. -/
theorem declaration_layout (options : Options) (definition : Node) :
    (∀ text, declaration options definition = .ok text →
      ∃ typeName texts, IsLaidOut options definition typeName texts text) ∧
    (∀ fields others nodes otherNodes, fields.members? = some nodes →
      others.members? = some otherNodes →
      SkippedEdits options.typeFieldName nodes otherNodes →
      declaration options (withFields definition fields)
        = declaration options (withFields definition others)) :=
  ⟨fun _ h => isLaidOut_of_declaration h, fun _ _ _ _ hfields hothers h =>
    declaration_withFields hfields hothers (declaredLines_of_edits h)⟩

/-- The field of a title. -/
def titleField : Node :=
  .field { name := .str "title", isRequired := .bool true, description := .str "Shown" } .string

/-- A field without a kind that has the name of the type field. -/
def strayField : Node := .field { name := .str "type" } .bare

/-- A document type with a label, in which a field without a kind is passed over. -/
def labelledDocument : Node :=
  .document (.str "Post") (.group [titleField, strayField])
    (.group [.computed (.str "url") (.str "string") .null]) .null
    (.obj [("stackbit", .obj [("fields", .obj [("Post", .obj [("label", .str "Entry")])])])])

def labelledText : String :=
  "/** Entry */\nexport type Post = \x7b\n  /** ID */\n  _id: string\n"
    ++ "  _raw: Record<string, any>\n  type: 'Post'\n  /** Shown */\n  title: string\n"
    ++ "  url: string\n\x7d"

theorem labelledDocument_layout :
    declaration {} labelledDocument = .ok labelledText ∧
    (∃ typeName texts, IsLaidOut {} labelledDocument typeName texts labelledText) ∧
    declaration {} (withFields labelledDocument (.group [titleField])) = .ok labelledText := by
  have hrendered : declaration {} labelledDocument = .ok labelledText := by
    with_unfolding_all rfl
  have hnamed : namedAs (.str "type") strayField = true := by
    simp [namedAs, strayField, Node.name?, Json.equals, Json.isNaN, Json.agrees]
  have hedit : SkippedEdits (.str "type") [titleField] [titleField, strayField] :=
    .single (.insert [titleField] [] hnamed)
  obtain ⟨hlayout, hedits⟩ := declaration_layout {} labelledDocument
  refine ⟨hrendered, hlayout _ hrendered, ?_⟩
  rw [hedits (.group [titleField]) (.group [titleField, strayField]) _ _ rfl rfl hedit]
  exact hrendered

end TypeScript
end ContentDecl
