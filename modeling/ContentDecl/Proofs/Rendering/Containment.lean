/-
# What a description says stays in its comment

A description that closes no comment is scanned as one comment, whatever else it says.
So a schema whose descriptions lose their words is rendered to the same code: the
texts differ in their comments only. Two schemas that are the same but for the words of
descriptions therefore have the same code.

The names of types are printed in code and as literals, so they have to be plain; names
of fields and the types that are given for computed fields stand in code, and have to be
closed; and an option has to be on one line (`Contained`).

The step is one node: its text is that of the node without words, up to comments
(`kindType_follows` and the other functions of the printer, along their recursion).

Key definitions: `Node.unworded`, `Schema.unworded`, `contained`, `Contained`,
`TypesAlike`.
Key theorems: `kindType_follows`, `declaration_follows`, `moduleOf_follows`,
`user_texts_contained`.
-/
import ContentDecl.Proofs.Rendering.DeclarationLayout
import ContentDecl.Proofs.Rendering.NameOrder
import ContentDecl.Proofs.Rendering.Scanner
import ContentDecl.Proofs.TypeExpr.Literal

namespace ContentDecl

open Result TypeScript

/-! ### Nodes without the words of their descriptions -/

/-- A description without its words: only whether it is there. -/
def Json.unworded (description : Json) : Json :=
  if description.isTrue then .bool true else description

def Head.unworded (head : Head) : Head := { head with description := head.description.unworded }

mutual

/-- A node in which no description has its words. -/
def Node.unworded : Node → Node
  | .plain v => .plain v
  | .group members => .group (Node.unwordedAll members)
  | .field head kind => .field head.unworded kind.unworded
  | .item kind => .item kind.unworded
  | .shape fields => .shape fields.unworded
  | .computed name type description => .computed name type description.unworded
  | .document name fields computed description extensions =>
    .document name fields.unworded computed.unworded description.unworded extensions
  | .nestedType name fields description extensions =>
    .nestedType name fields.unworded description.unworded extensions
  | .schema documents nested => .schema documents nested
  | .foreign className kind head => .foreign className kind head.unworded

def FieldKind.unworded : FieldKind → FieldKind
  | .nestedUnnamed type => .nestedUnnamed type.unworded
  | .list item => .list item.unworded
  | .listPolymorphic items => .listPolymorphic items.unworded
  | kind => kind

def ItemKind.unworded : ItemKind → ItemKind
  | .nestedUnnamed type => .nestedUnnamed type.unworded
  | kind => kind

def Node.unwordedAll : List Node → List Node
  | [] => []
  | node :: rest => node.unworded :: Node.unwordedAll rest

end

theorem Node.unwordedAll_eq_map : ∀ nodes : List Node,
    Node.unwordedAll nodes = nodes.map Node.unworded
  | [] => rfl
  | node :: rest => by rw [Node.unwordedAll, Node.unwordedAll_eq_map rest, List.map_cons]

@[simp] theorem Json.isTrue_unworded (description : Json) :
    description.unworded.isTrue = description.isTrue := by
  unfold Json.unworded
  split
  · rename_i htrue
    rw [htrue]
    rfl
  · rfl

@[simp] theorem Node.name?_unworded (node : Node) : node.unworded.name? = node.name? := by
  cases node <;> rfl

@[simp] theorem Node.kind?_unworded (node : Node) : node.unworded.kind? = node.kind? := by
  cases node with
  | field head kind => cases kind <;> rfl
  | item kind => cases kind <;> rfl
  | _ => rfl

@[simp] theorem Node.description?_unworded (node : Node) :
    node.unworded.description? = node.description?.map Json.unworded := by
  cases node <;> rfl

/-- What a node without words consists of. -/
theorem Node.members?_unworded (node : Node) :
    node.unworded.members? = node.members?.map (List.map Node.unworded) := by
  cases node with
  | plain v =>
    have hplain : ∀ vs : List Json, (vs.map Node.plain).map Node.unworded = vs.map Node.plain := by
      intro vs
      rw [List.map_map]
      rfl
    cases hvs : v.elements? with
    | none => simp [unworded, members?, hvs]
    | some vs => simp only [unworded, members?, hvs, Option.map_some, hplain]
  | group members => rw [unworded, members?, members?, Node.unwordedAll_eq_map, Option.map_some]
  | _ => rfl

def Registry.unworded (registry : Registry) : Registry :=
  registry.map fun entry => (entry.1, entry.2.unworded)

theorem Registry.definitions_unworded (registry : Registry) :
    registry.unworded.definitions = registry.definitions.map Node.unworded := by
  simp [definitions, unworded]

/-- A schema in which no description has its words. -/
def Schema.unworded (schema : Schema) : Schema :=
  ⟨schema.documents.unworded, schema.nested.unworded⟩

theorem Schema.registry_unworded (schema : Schema) (part : Section) :
    schema.unworded.registry part = (schema.registry part).unworded := by
  cases part <;> rfl

/-- Names and options that the scanner comes out of as it went in, and descriptions that
stay in their comments. -/
def contained : Demand where
  head head := Closed head.name.text ∧ StaysInComment head.description
  typeName v := Closed v.text
  typeNames v := ∀ w ∈ v.elements?.getD [], Closed w.text
  options v := ∀ w ∈ v.elements?.getD [], ∀ c ∈ w.text.toList, isLineEnd c = false

namespace TypeScript

/-! ### Type expressions -/

/-- Two types that are both texts or both none, with the same code. -/
structure TypesAlike (v w : Json) : Prop where
  isText : v.isText = w.isText
  sameCode : SameCode v.text w.text

theorem TypesAlike.of_closed {v : Json} (h : Closed v.text) : TypesAlike v v := ⟨rfl, h.sameCode⟩

theorem TypesAlike.str {s t : String} (h : SameCode s t) : TypesAlike (.str s) (.str t) := ⟨rfl, h⟩

theorem asText_follows {v w : Json} (h : TypesAlike v w) : Follows SameCode (asText v) (asText w) := by
  cases v with
  | str s =>
    obtain ⟨t, rfl⟩ := eq_str_of_isText h.isText.symm
    exact .ok h.sameCode
  | _ => exact .error _ _

theorem unionOf_follows {types others : List Json} (h : List.Forall₂ TypesAlike types others) :
    Follows SameCode (unionOf (.arr types)) (unionOf (.arr others)) := by
  have htexts : Follows (List.Forall₂ SameCode) (types.mapM asText) (others.mapM asText) :=
    .mapM (h.imp fun _ _ => asText_follows)
  exact htexts.map fun _ _ hs => .intercalate bar_closed hs

theorem unionOf_closed {v : Json} (h : ∀ w ∈ v.elements?.getD [], Closed w.text) :
    Follows SameCode (unionOf v) (unionOf v) := by
  cases hvs : v.elements? with
  | none =>
    have hnone : unionOf v = .error .typeMismatch := by rw [unionOf, textsOf, hvs, map_error]
    rw [hnone]
    exact .error _ _
  | some vs =>
    have hsome : unionOf v = unionOf (.arr vs) := by rw [unionOf, textsOf, hvs]; rfl
    rw [hsome]
    rw [hvs, Option.getD_some] at h
    exact unionOf_follows (List.forall₂_same.mpr fun w hmem => .of_closed (h w hmem))

theorem parenthesized_sameCode {s t : String} (h : SameCode s t) :
    SameCode (parenthesized s) (parenthesized t) := by
  have hopen : Closed "(" := by decide
  have hclose : Closed ")" := by decide
  exact (hopen.sameCode.append h).append hclose.sameCode

theorem listType_follows {v w : Json} (h : TypesAlike v w) :
    Follows SameCode (listType v) (listType w) :=
  (asText_follows h).map fun _ _ hs => hs.append brackets_closed.sameCode

theorem polymorphicListType_follows {types others : List Json}
    (h : List.Forall₂ TypesAlike types others) :
    Follows SameCode (polymorphicListType (.arr types)) (polymorphicListType (.arr others)) :=
  (unionOf_follows h).map fun _ _ hs =>
    (parenthesized_sameCode hs).append brackets_closed.sameCode

/-- Options on one line are closed as literals. -/
theorem literalsOf_follows {v : Json}
    (h : ∀ w ∈ v.elements?.getD [], ∀ c ∈ w.text.toList, isLineEnd c = false) :
    Follows (fun literals others => SameCode (union literals) (union others)) (literalsOf v)
      (literalsOf v) := by
  refine .same fun literals hliterals =>
    (Closed.intercalate bar_closed fun text hmem => ?_).sameCode
  unfold literalsOf at hliterals
  split at hliterals
  · rename_i vs hvs
    rw [hvs, Option.getD_some] at h
    obtain ⟨w, hw, hone⟩ := exists_of_mem_mapM hliterals text hmem
    cases w with
    | str s =>
      obtain rfl : literal s = text := Except.ok.inj hone
      exact literal_closed (h (.str s) hw)
    | _ => cases hone
  · cases hliterals

theorem staysInComment_unworded (description : Json) : StaysInComment description.unworded := by
  unfold Json.unworded
  split
  · have htrue : ¬ ClosesComment (Json.bool true).text := by decide
    exact fun _ => htrue
  · rename_i hfalse
    exact fun htrue => absurd htrue hfalse

theorem commentsAlike_unworded {description : Json} (h : StaysInComment description) :
    CommentsAlike description description.unworded :=
  ⟨(Json.isTrue_unworded _).symm, h, staysInComment_unworded _⟩

/-- A member of an object type without the marker of a member that may be absent. -/
theorem member_sameCode {description name : Json} {type other : String} (hname : Closed name.text)
    (hcomment : StaysInComment description) (h : SameCode type other) :
    SameCode (comment description indent ++ indent ++ name.text ++ ": " ++ type)
      (comment description.unworded indent ++ indent ++ name.text ++ ": " ++ other) := by
  have indent_closed : Closed indent := by decide
  have hlead : SameCode (comment description indent) (comment description.unworded indent) :=
    comment_sameCode indent_closed (commentsAlike_unworded hcomment)
  exact (((hlead.append indent_closed.sameCode).append hname.sameCode).append
    colon_closed.sameCode).append h

theorem memberLine_sameCode {head : Head} {type other : Json} (hname : Closed head.name.text)
    (hcomment : StaysInComment head.description) (h : TypesAlike type other) :
    SameCode (memberLine head type) (memberLine head.unworded other) := by
  have hmark : Closed (if head.isRequired.isTrue then "" else " | undefined") := by
    split <;> decide
  exact (member_sameCode hname hcomment h.sameCode).append hmark.sameCode

theorem objectType_sameCode {lines others : List String} (h : List.Forall₂ SameCode lines others) :
    SameCode (objectType lines) (objectType others) := by
  have hopen : Closed "\x7b\n" := by decide
  have hclose : Closed "\n\x7d" := by decide
  exact (hopen.sameCode.append (.intercalate lineBreak_closed h)).append hclose.sameCode

mutual

/-- The type expression of a kind is that of the kind without words, up to comments. -/
theorem kindType_follows : ∀ {kind : FieldKind}, contained.Kind kind →
    Follows TypesAlike (kindType kind) (kindType kind.unworded)
  | .bare, h => h.elim
  | .boolean, _ => .ok (.of_closed (by decide))
  | .string, _ => .ok (.of_closed (by decide))
  | .number, _ => .ok (.of_closed (by decide))
  | .json, _ => .ok (.of_closed (by decide))
  | .date, _ => .ok (.of_closed (by decide))
  | .markdown, _ => .ok (.of_closed (by decide))
  | .mdx, _ => .ok (.of_closed (by decide))
  | .nested _, h => .ok (.of_closed h)
  | .nestedPolymorphic _, h => (unionOf_closed h).map fun _ _ => .str
  | .nestedUnnamed _, h => (shapeType_follows h).map fun _ _ => .str
  | .reference _, _ => .ok (.of_closed (by decide))
  | .referencePolymorphic _, _ => .ok (.of_closed (by decide))
  | .list _, h =>
    (itemType_follows h).bind fun _ _ htype => (listType_follows htype).map fun _ _ => .str
  | .listPolymorphic (.group _), h =>
    (itemTypesOf_follows h.2).bind fun _ _ htypes =>
      (polymorphicListType_follows htypes).map fun _ _ => .str
  | .enum _, h => (literalsOf_follows h).map fun _ _ => .str

theorem itemType_follows : ∀ {node : Node}, contained.Item node →
    Follows TypesAlike (itemType node) (itemType node.unworded)
  | .item .boolean, _ => .ok (.of_closed (by decide))
  | .item .string, _ => .ok (.of_closed (by decide))
  | .item (.nested _), h => .ok (.of_closed h)
  | .item (.enum _), h => (literalsOf_follows h).map fun _ _ hs => .str (parenthesized_sameCode hs)
  | .item (.nestedUnnamed _), h => (shapeType_follows h).map fun _ _ => .str
  | .item (.reference _), _ => .ok (.of_closed (by decide))

theorem shapeType_follows : ∀ {node : Node}, contained.Shape node →
    Follows SameCode (shapeType node) (shapeType node.unworded)
  | .shape (.group _), h => (fieldLinesOf_follows h).map fun _ _ => objectType_sameCode

theorem itemTypesOf_follows : ∀ {nodes : List Node}, contained.Items nodes →
    Follows (List.Forall₂ TypesAlike) (itemTypesOf nodes) (itemTypesOf (Node.unwordedAll nodes))
  | [], _ => .ok .nil
  | _ :: _, ⟨h, hs⟩ =>
    (itemType_follows h).bind fun _ _ hone => (itemTypesOf_follows hs).bind fun _ _ hrest =>
      .ok (.cons hone hrest)

theorem fieldLinesOf_follows : ∀ {nodes : List Node}, contained.Fields nodes →
    Follows (List.Forall₂ SameCode) (fieldLinesOf nodes) (fieldLinesOf (Node.unwordedAll nodes))
  | [], _ => .ok .nil
  | _ :: _, ⟨h, hs⟩ =>
    (fieldLine_follows h).bind fun _ _ hone => (fieldLinesOf_follows hs).bind fun _ _ hrest =>
      .ok (.cons hone hrest)

theorem fieldLine_follows : ∀ {node : Node}, contained.Field node →
    Follows SameCode (fieldLine node) (fieldLine node.unworded)
  | .field _ _, ⟨⟨hname, hcomment⟩, hkind⟩ =>
    (kindType_follows hkind).map fun _ _ => memberLine_sameCode hname hcomment

end

/-! ### Declarations -/

variable {typeField : Json} {options : Options}

/-- A computed field whose name and type are closed, and whose comment stays one. -/
structure ContainedMember (node : Node) : Prop where
  name : ∀ name, node.name? = some name → Closed name.text
  type : ∀ type, node.kind? = some type → Closed type.text
  comment : ∀ description, node.description? = some description → StaysInComment description

/-- A definition with a plain name, whose fields are contained, and whose comment stays
one. -/
structure Contained (definition : Node) : Prop where
  name : ∃ s, definition.name? = some (.str s) ∧ IsPlain s
  fields : ∀ fields, definition.fields? = some fields → contained.FieldGroup fields
  computed : ∀ node ∈ computedOf definition, ContainedMember node
  comment : StaysInComment (lead definition)

theorem namedAs_unworded (node : Node) : namedAs typeField node.unworded = namedAs typeField node := by
  rw [namedAs, namedAs, Node.name?_unworded]

theorem forall₂_unworded {R : Node → Node → Prop} {nodes : List Node}
    (h : ∀ node ∈ nodes, R node node.unworded) :
    List.Forall₂ R nodes (nodes.map Node.unworded) :=
  List.forall₂_map_right_iff.mpr (List.forall₂_same.mpr h)

theorem declaredLines_follows {nodes : List Node} (h : contained.Fields nodes) :
    Follows (List.Forall₂ SameCode) (declaredLines typeField nodes)
      (declaredLines typeField (nodes.map Node.unworded)) := by
  have hkept : ((nodes.map Node.unworded).filter fun node => !namedAs typeField node)
      = (nodes.filter fun node => !namedAs typeField node).map Node.unworded := by
    rw [List.filter_map]
    congr 2
    funext node
    exact congrArg (!·) (namedAs_unworded node)
  rw [declaredLines_eq_mapM, declaredLines_eq_mapM, hkept]
  refine .mapM (forall₂_unworded fun node hmem => fieldLine_follows ?_)
  exact (Demand.fields_iff _ _).mp h node (List.mem_of_mem_filter hmem)

theorem computedLine_follows {typeName : Json} {node : Node} (h : ContainedMember node) :
    Follows SameCode (computedLine typeField typeName node)
      (computedLine typeField typeName node.unworded) := by
  intro line hline
  obtain ⟨hnamed, name, description, type, hname, hdescription, hkind, rfl⟩ :=
    computedLine_eq_ok hline
  have hne : name.equals typeField = false := by
    rw [namedAs, hname] at hnamed
    exact hnamed
  refine ⟨_, by simp [computedLine, hname, hne, hdescription, hkind]; rfl, ?_⟩
  exact member_sameCode (h.name _ hname) (h.comment _ hdescription) (h.type _ hkind).sameCode

theorem nodesOf_follows (node : Node) :
    Follows (fun nodes others => node.members? = some nodes ∧ others = nodes.map Node.unworded)
      (nodesOf node) (nodesOf node.unworded) := by
  unfold nodesOf
  rw [Node.members?_unworded]
  cases node.members? with
  | none => exact .error _ _
  | some nodes => exact .ok ⟨rfl, rfl⟩

theorem declarationLines_document (name : Json) (nodes : List Node) (computed : Node)
    (description extensions : Json) :
    declarationLines typeField (.document name (.group nodes) computed description extensions)
      = declaredLines typeField nodes >>= fun declared => nodesOf computed >>= fun members =>
          members.mapM (computedLine typeField name) >>= fun lines => pure (declared ++ lines) := rfl

theorem declarationLines_nestedType (name : Json) (nodes : List Node) (description extensions : Json) :
    declarationLines typeField (.nestedType name (.group nodes) description extensions)
      = declaredLines typeField nodes >>= fun declared => pure declared := rfl

theorem exists_group {fields : Node} (h : contained.FieldGroup fields) :
    ∃ nodes, fields = .group nodes ∧ contained.Fields nodes := by
  cases fields with
  | group nodes => exact ⟨nodes, rfl, h⟩
  | _ => exact h.elim

theorem declarationLines_follows {definition : Node} (h : Contained definition) :
    Follows (List.Forall₂ SameCode) (declarationLines typeField definition)
      (declarationLines typeField definition.unworded) := by
  cases definition with
  | document name fields computed description extensions =>
    obtain ⟨nodes, rfl, hnodes⟩ := exists_group (h.fields fields rfl)
    rw [Node.unworded, Node.unworded, Node.unwordedAll_eq_map, declarationLines_document,
      declarationLines_document]
    refine (declaredLines_follows hnodes).bind fun declared others hdeclared => ?_
    refine (nodesOf_follows computed).bind fun members unworded hmembers => ?_
    obtain ⟨hsome, rfl⟩ := hmembers
    have hcomputed : ∀ node ∈ members, ContainedMember node := by
      have hall := h.computed
      rwa [computedOf, hsome, Option.getD_some] at hall
    have hlines : Follows (List.Forall₂ SameCode) (members.mapM (computedLine typeField name))
        ((members.map Node.unworded).mapM (computedLine typeField name)) :=
      .mapM (forall₂_unworded fun node hmem => computedLine_follows (hcomputed node hmem))
    exact hlines.bind fun _ _ hrest => .ok (List.rel_append hdeclared hrest)
  | nestedType name fields description extensions =>
    obtain ⟨nodes, rfl, hnodes⟩ := exists_group (h.fields fields rfl)
    rw [Node.unworded, Node.unworded, Node.unwordedAll_eq_map, declarationLines_nestedType,
      declarationLines_nestedType]
    exact (declaredLines_follows hnodes).bind fun _ _ hdeclared => .ok hdeclared
  | shape fields =>
    obtain ⟨s, hname, -⟩ := h.name
    cases hname
  | _ => exact .error _ _

theorem definitionComment_follows {definition : Node} (h : Contained definition) :
    Follows CommentsAlike (definitionComment definition) (definitionComment definition.unworded) := by
  have hlead : Follows CommentsAlike (definitionComment definition) (definitionComment definition) := by
    refine .same fun comment hcomment => ?_
    obtain ⟨rfl, -⟩ := definitionComment_lead hcomment
    exact ⟨rfl, h.comment, h.comment⟩
  cases definition with
  | document name fields computed description extensions =>
    rw [definitionComment] at hlead
    rw [Node.unworded, definitionComment, definitionComment, Json.isTrue_unworded]
    by_cases htrue : description.isTrue = true
    · have hstays := h.comment
      rw [lead, if_pos htrue] at hstays
      rw [if_pos htrue, if_pos htrue]
      exact .ok (commentsAlike_unworded hstays)
    · rw [if_neg htrue] at hlead ⊢
      rw [if_neg htrue]
      exact hlead
  | nestedType name fields description extensions => exact .ok (commentsAlike_unworded h.comment)
  | _ => exact .error _ _

theorem leadLines_sameCode {description other : Json} (h : CommentsAlike description other) :
    List.Forall₂ SameCode (leadLines description) (leadLines other) := by
  unfold leadLines
  rw [← h.isTrue]
  split
  · rename_i htrue
    exact .cons (commentText_sameCode (h.left htrue) (h.right (h.isTrue ▸ htrue))) .nil
  · exact .nil

/-- The line of the type's name is closed, with the name as a literal in it. -/
theorem discriminantText_closed {name : String} (hname : IsPlain name)
    (htype : Closed typeField.text) : Closed (discriminantText typeField (.str name)) := by
  have hquote : ": '" = ": " ++ "'" := rfl
  have hall := ((indent_closed.append htype).append colon_closed).append hname.literal_closed
  rw [hname.literal_eq] at hall
  simpa only [discriminantText, hquote, Json.text, String.append_assoc] using hall

/-- The comment on identifiers of an adapter is one, and its member is closed. -/
theorem identifier_closed (adapter : Adapter) :
    Closed ("  /** " ++ adapter.wording.idComment ++ " */\n" ++ "  _id: string") := by
  have hmember : Closed "  _id: string" := by decide
  have hopen : "  /** " = "  " ++ "/** " := rfl
  have hclose : " */\n" = " */" ++ "\n" := rfl
  have hstays : ¬ ClosesComment adapter.wording.idComment := by
    cases adapter <;> decide
  have hcomment := (commentText_sameCode hstays hstays).closed
  have hall := ((indent_closed.append hcomment).append lineBreak_closed).append hmember
  simpa only [commentText, hopen, hclose, String.append_assoc] using hall

theorem payload_closed (adapter : Adapter) : Closed ("  _raw: " ++ adapter.wording.rawType) := by
  have hmember : Closed "  _raw: " := by decide
  have htype : Closed adapter.wording.rawType := by
    cases adapter <;> decide
  exact hmember.append htype

theorem import_closed (adapter : Adapter) :
    Closed (adapter.wording.importLine?.elim "" (· ++ "\n")) := by
  cases himport : adapter.wording.importLine? with
  | none => exact rfl
  | some line =>
    have hline : Closed line := by
      cases adapter <;> cases himport <;> decide
    exact hline.append lineBreak_closed

theorem preamble_closed : Closed preamble := by
  unfold preamble
  refine .append (.append (.append (.append (.append (.append (.append (.append (.append ?_ ?_)
    ?_) ?_) ?_) ?_) ?_) ?_) ?_) ?_ <;> decide

/-- A declaration has the same code as one with other words in its comments. -/
theorem declarationText_sameCode {description other : Json} {name : String}
    {lines others : List String} (hcomment : CommentsAlike description other)
    (hname : IsPlain name) (htype : Closed options.typeFieldName.text)
    (hlines : List.Forall₂ SameCode lines others) :
    SameCode (declarationText description (.str name) options lines)
      (declarationText other (.str name) options others) := by
  have hopen : Closed "export type " := by decide
  have hbrace : Closed " = \x7b" := by decide
  have hclose : Closed "\x7d" := by decide
  have hheader : Closed ("export type " ++ (Json.str name).text ++ " = \x7b") :=
    (hopen.append hname.closed).append hbrace
  have hidentifier := identifier_closed options.adapter
  have hpayload := payload_closed options.adapter
  have hdiscriminant := discriminantText_closed hname htype
  rw [declarationText_eq_laidOut, declarationText_eq_laidOut]
  -- The lines are the same one by one, up to comments, and so is what they are joined to.
  refine .intercalate lineBreak_closed (List.rel_append (List.rel_append (List.rel_append
    (leadLines_sameCode hcomment) (.cons hheader.sameCode .nil)) ?_) (.cons hclose.sameCode .nil))
  exact .cons hidentifier.sameCode (.cons hpayload.sameCode (.cons hdiscriminant.sameCode hlines))

/-- **The declaration of a definition is that of the definition without words, up to
comments.** -/
theorem declaration_follows {definition : Node} (h : Contained definition)
    (htype : Closed options.typeFieldName.text) :
    Follows SameCode (declaration options definition) (declaration options definition.unworded) := by
  obtain ⟨name, hname, hplain⟩ := h.name
  have hnames : definition.unworded.name? = some (.str name) := by
    rw [Node.name?_unworded, hname]
  unfold declaration
  rw [hname, hnames]
  refine (declarationLines_follows h).bind fun lines others hlines => ?_
  refine (definitionComment_follows h).bind fun description other hcomment => ?_
  exact .ok (declarationText_sameCode hcomment hplain htype hlines)

/-! ### Modules -/

section Listings

variable {names : List String} (hnames : ∀ name ∈ names, IsPlain name)
include hnames

theorem mapText_closed (title : String) (htitle : IsPlain title) : Closed (mapText title names) := by
  have hexport : Closed "\nexport type " := by decide
  have hopen : Closed " = \x7b\n" := by decide
  have hclose : Closed "\x7d\n" := by decide
  refine (((hexport.append htitle.closed).append hopen).append (.join fun line hline => ?_)).append
    hclose
  obtain ⟨name, hmem, rfl⟩ := List.mem_map.mp hline
  have hname := (hnames name hmem).closed
  exact (((indent_closed.append hname).append colon_closed).append hname).append lineBreak_closed

theorem unionText_closed (text : String → String) (htext : ∀ name, IsPlain name → Closed (text name)) :
    Closed (unionText (names.map text)) := by
  have hnever : Closed never := by decide
  unfold unionText
  split
  · exact hnever
  · refine .intercalate bar_closed fun line hline => ?_
    obtain ⟨name, hmem, rfl⟩ := List.mem_map.mp hline
    exact htext name (hnames name hmem)

theorem unionsText_closed (typesTitle namesTitle : String) (htypes : IsPlain typesTitle)
    (hlist : IsPlain namesTitle) : Closed (unionsText typesTitle namesTitle names) := by
  have hexport : Closed "\nexport type " := by decide
  have hexports : Closed "export type " := by decide
  have hequals : Closed " = " := by decide
  have htypesText : Closed (unionText names) := by
    have hall := unionText_closed hnames id fun _ hname => hname.closed
    rwa [List.map_id] at hall
  have hnamesText := unionText_closed hnames literal fun _ hname => hname.literal_closed
  exact ((((((((hexport.append htypes.closed).append hequals).append htypesText).append
    lineBreak_closed).append hexports).append hlist.closed).append hequals).append
    hnamesText).append lineBreak_closed

end Listings

theorem declarationsText_sameCode {title : String}
    (htitle : Closed ("\n/** " ++ title ++ " */\n")) {texts others : List String}
    (h : List.Forall₂ SameCode texts others) :
    SameCode (declarationsText title texts) (declarationsText title others) := by
  have hblank : Closed "\n\n" := by decide
  refine htitle.sameCode.append ?_
  cases h with
  | nil => exact ⟨rfl, rfl⟩
  | cons hone hrest =>
    exact (SameCode.intercalate hblank (.cons hone hrest)).append lineBreak_closed.sameCode

/-- A module has the same code as one with other words in its comments. -/
theorem moduleText_sameCode {documentNames nestedNames : List String}
    {documents otherDocuments nested otherNested : List String}
    (hdocumentNames : ∀ name ∈ documentNames, IsPlain name)
    (hnestedNames : ∀ name ∈ nestedNames, IsPlain name)
    (hdocuments : List.Forall₂ SameCode documents otherDocuments)
    (hnested : List.Forall₂ SameCode nested otherNested) :
    SameCode (moduleText options documentNames nestedNames documents nested)
      (moduleText options documentNames nestedNames otherDocuments otherNested) := by
  have hbanner : Closed (if options.banner.isTrue then banner else "") := by
    split <;> decide
  have himport : Closed "import type \x7b Markdown, MDX \x7d from 'contentlayer/core'\n" := by decide
  have hadapter := import_closed options.adapter
  have hall : Closed "\nexport type AllTypes = DocumentTypes | NestedTypes\n" := by decide
  have hallNames : Closed "export type AllTypeNames = DocumentTypeNames | NestedTypeNames\n" := by
    decide
  have hdocumentMap := mapText_closed hdocumentNames "DocumentTypeMap" (by decide)
  have hnestedMap := mapText_closed hnestedNames "NestedTypeMap" (by decide)
  have hdocumentUnions := unionsText_closed hdocumentNames "DocumentTypes" "DocumentTypeNames"
    (by decide) (by decide)
  have hnestedUnions := unionsText_closed hnestedNames "NestedTypes" "NestedTypeNames" (by decide)
    (by decide)
  have hhead := ((((((((hbanner.append himport).append hadapter).append preamble_closed).append
    hdocumentMap).append hnestedMap).append hall).append hallNames).append hdocumentUnions).append
    hnestedUnions
  exact (hhead.sameCode.append (declarationsText_sameCode (by decide) hdocuments)).append
    (declarationsText_sameCode (by decide) hnested)

theorem nameText_unworded (node : Node) : node.unworded.nameText = node.nameText := by
  rw [Node.nameText, Node.nameText, Node.name?_unworded]

theorem Contained.hasTextName {node : Node} (h : Contained node) : HasTextName node := by
  obtain ⟨s, hs, -⟩ := h.name
  exact ⟨s, hs⟩

theorem Contained.isPlain {node : Node} (h : Contained node) : IsPlain node.nameText := by
  obtain ⟨s, hs, hplain⟩ := h.name
  rw [Node.nameText, hs]
  exact hplain

/-- **The module of a schema is that of the schema without words, up to comments.** -/
theorem moduleOf_follows {schema : Schema} (htype : Closed options.typeFieldName.text)
    (h : ∀ part, ∀ node ∈ (schema.registry part).definitions, Contained node) :
    Follows SameCode (moduleOf options schema) (moduleOf options schema.unworded) := by
  have hunworded : ∀ part, (schema.unworded.registry part).definitions
      = (schema.registry part).definitions.map Node.unworded := by
    intro part
    rw [Schema.registry_unworded, Registry.definitions_unworded]
  obtain ⟨sorted, hsorted, hmodule⟩ := moduleOf_texts fun part node hmem =>
    (h part node hmem).hasTextName
  have hnamed : ∀ part, ∀ node ∈ (schema.unworded.registry part).definitions,
      HasTextName node := by
    intro part node hmem
    rw [hunworded] at hmem
    obtain ⟨found, hfound, rfl⟩ := List.mem_map.mp hmem
    obtain ⟨s, hs⟩ := (h part found hfound).hasTextName
    exact ⟨s, by rw [Node.name?_unworded, hs]⟩
  obtain ⟨others, hothers, hother⟩ := moduleOf_texts hnamed
  -- Both are in the order of the names, which are the same.
  have horder : ∀ part, others part = (sorted part).map Node.unworded := by
    intro part
    have hmapped := (hsorted part).map nameText_unworded
    rw [← hunworded part] at hmapped
    exact (hothers part).unique hmapped
  have hcontained : ∀ part, ∀ node ∈ sorted part, Contained node := fun part node hmem =>
    h part node ((hsorted part).perm.mem_iff.mp hmem)
  have hnames : ∀ part, ∀ name ∈ (sorted part).map Node.nameText, IsPlain name := by
    intro part name hmem
    obtain ⟨node, hnode, rfl⟩ := List.mem_map.mp hmem
    exact (hcontained part node hnode).isPlain
  have hsame : ∀ part, ((sorted part).map Node.unworded).map Node.nameText
      = (sorted part).map Node.nameText := by
    intro part
    rw [List.map_map]
    exact List.map_congr_left fun node _ => nameText_unworded node
  have htexts : ∀ part, Follows (List.Forall₂ SameCode) ((sorted part).mapM (declaration options))
      (((sorted part).map Node.unworded).mapM (declaration options)) := fun part =>
    .mapM (forall₂_unworded fun node hmem => declaration_follows (hcontained part node hmem) htype)
  rw [hmodule, hother, horder, horder, hsame, hsame]
  refine (htexts .documents).bind fun documents otherDocuments hdocuments => ?_
  refine (htexts .nested).bind fun nested otherNested hnested => ?_
  exact .ok (moduleText_sameCode (hnames _) (hnames _) hdocuments hnested)

/-- **No text of a user leaves its token.** In a literal no quote is bare, and it ends the
line only if the text does. In the comment of a description the scanner stays to the end of
the description exactly if that does not close it, and then only the indentation and the
line break are left. So two schemas with contained texts that are the same but for the
words of descriptions have modules of the same code. -/
theorem user_texts_contained (options : Options) (schema other : Schema) :
    (∀ s, ∃ body, literal s = String.ofList ('\x27' :: (body ++ ['\x27'])) ∧
      Escaped body s.toList ∧
      ((∀ c ∈ body, isLineEnd c = false) ↔ ∀ c ∈ s.toList, isLineEnd c = false)) ∧
    (∀ description before, IsPlain before → description.isTrue = true →
      ((∀ said, said <+: description.text.toList →
          (scan .code ((before ++ "/** ").toList ++ said)).1.InComment) ↔
        ¬ ClosesComment description.text) ∧
      (¬ ClosesComment description.text →
        scan .code (comment description before).toList = (.code, (before ++ "\n").toList))) ∧
    (Closed options.typeFieldName.text →
      (∀ part, ∀ node ∈ (schema.registry part).definitions, Contained node) →
      (∀ part, ∀ node ∈ (other.registry part).definitions, Contained node) →
      schema.unworded = other.unworded → ∀ text otherText,
      moduleOf options schema = .ok text → moduleOf options other = .ok otherText →
      codeOf text = codeOf otherText) := by
  refine ⟨fun s => ?_, fun description before hplain htrue => ⟨?_, hplain.scan_printed htrue⟩, ?_⟩
  · exact ⟨s.toList.flatMap escape, rfl, escaped_flatMap_escape _, isLineEnd_escaped _⟩
  · simp only [hplain.scan_opening]
    exact stays_iff_not_closesComment description.text
  · intro htype hschema hother hsame text otherText htext hotherText
    obtain ⟨common, hcommon, hleft⟩ := moduleOf_follows htype hschema text htext
    obtain ⟨found, hfound, hright⟩ := moduleOf_follows htype hother otherText hotherText
    rw [← hsame, hcommon] at hfound
    obtain rfl := Except.ok.inj hfound
    exact hleft.codeOf_eq.trans hright.codeOf_eq.symm

/-- A nested type with a description. -/
def describedType (description : String) : Node :=
  .nestedType (.str "Cta") (.group [.field { name := .str "label" } .string]) (.str description)
    (.obj [])

def describedSchema (description : String) : Schema :=
  { nested := [(.str "Cta", describedType description)] }

theorem describedSchema_sameCode :
    ∃ text otherText, moduleOf {} (describedSchema "Call to action") = .ok text ∧
      moduleOf {} (describedSchema "it's // a \"button\"") = .ok otherText ∧
      codeOf text = codeOf otherText := by
  have hcontained : ∀ description, ¬ ClosesComment description → ∀ part,
      ∀ node ∈ ((describedSchema description).registry part).definitions, Contained node := by
    intro description hstays part node hmem
    cases part with
    | documents => cases hmem
    | nested =>
      obtain rfl := List.mem_singleton.mp hmem
      have hlabel : Closed "label" := by decide
      have hname : IsPlain "Cta" := by decide
      refine ⟨⟨"Cta", rfl, hname⟩, ?_, nofun, fun _ => hstays⟩
      rintro _ ⟨⟩
      exact ⟨⟨⟨hlabel, nofun⟩, trivial⟩, trivial⟩
  have hrendered : ∀ description, ¬ ClosesComment description →
      ∃ text, moduleOf {} (describedSchema description) = .ok text := by
    intro description hstays
    have hall := hcontained description hstays
    refine exists_moduleOf (fun part node hmem => (hall part node hmem).hasTextName)
      fun part node hmem => ?_
    cases part with
    | documents => cases hmem
    | nested =>
      obtain rfl := List.mem_singleton.mp hmem
      exact ⟨_, by with_unfolding_all rfl⟩
  have hleft : ¬ ClosesComment "Call to action" := by decide
  have hright : ¬ ClosesComment "it's // a \"button\"" := by decide
  have htype : Closed (Options.typeFieldName {}).text := by decide
  obtain ⟨text, htext⟩ := hrendered _ hleft
  obtain ⟨otherText, hotherText⟩ := hrendered _ hright
  exact ⟨text, otherText, htext, hotherText, (user_texts_contained {} _ _).2.2 htype
    (hcontained _ hleft) (hcontained _ hright) rfl text otherText htext hotherText⟩

/-- A description that closes its comment goes on as code. -/
theorem closing_description :
    (describedType "Call").unworded = (describedType "*/ Call /*").unworded ∧
    ∃ text otherText, declaration {} (describedType "Call") = .ok text ∧
      declaration {} (describedType "*/ Call /*") = .ok otherText ∧
      codeOf text ≠ codeOf otherText := by
  refine ⟨rfl, _, _, by with_unfolding_all rfl, by with_unfolding_all rfl, ?_⟩
  decide +kernel

end TypeScript
end ContentDecl
