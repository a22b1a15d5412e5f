/-
# The name of a type as a literal

A module writes the name of a type as a literal in two places: in the union of the
names of its section, where it is escaped, and as the type of the type field in the
declaration, where it stands between quotes as it is. So the two agree exactly for the
names in which nothing is escaped, and exactly for these the declaration says the name
of its type.

Where a declaration says it is settled by its layout: the block of the type field is
the name of the field and what it is given.

Key definitions: `GivesLiteral`, `NamesAgree`.
Key theorems: `givesLiteral_iff`, `namesAgree_of_declaration`, `moduleOf_typeLiterals`.
-/
import ContentDecl.Proofs.Rendering.DeclarationLayout
import ContentDecl.Proofs.Rendering.Listings

namespace ContentDecl
namespace TypeScript

variable {options : Options}

/-- The declaration of a definition gives the type field this literal: in its layout,
the block of the type field is the name of the field with the literal behind it. -/
def GivesLiteral (options : Options) (definition : Node) (text said : String) : Prop :=
  ∃ typeName texts, ∃ i : ℕ, IsLaidOut options definition typeName texts text ∧
    (blocksOf options.typeFieldName definition)[i]? = some .discriminant ∧
    texts[i]? = some ("  " ++ options.typeFieldName.text ++ ": " ++ said)

/-- The line of the type field holds the name of the type between bare quotes. -/
theorem discriminantText_eq (typeField typeName : Json) :
    discriminantText typeField typeName
      = "  " ++ typeField.text ++ ": " ++ bareLiteral typeName.text := by
  have hquote : ": '" = ": " ++ "'" := rfl
  unfold discriminantText bareLiteral
  simp only [hquote, String.append_assoc]

/-- **A declaration gives the type field the name of its type between bare quotes**, and
nothing else. -/
theorem givesLiteral_iff {definition : Node} {text said : String}
    (h : declaration options definition = .ok text) :
    GivesLiteral options definition text said ↔ said = bareLiteral definition.nameText := by
  constructor
  · rintro ⟨typeName, texts, i, hlaid, hblock, hsaid⟩
    have hname : definition.nameText = typeName.text := by
      rw [Node.nameText, hlaid.name, Option.getD_some]
    have htext : BlockText options typeName .discriminant
        ("  " ++ options.typeFieldName.text ++ ": " ++ said) := by
      obtain ⟨hi, hblock⟩ := List.getElem?_eq_some_iff.mp hblock
      obtain ⟨hi', hsaid⟩ := List.getElem?_eq_some_iff.mp hsaid
      have hat := (List.forall₂_iff_get.mp hlaid.blocks).2 i hi hi'
      rw [List.get_eq_getElem, List.get_eq_getElem, hblock, hsaid] at hat
      exact hat
    have heq : "  " ++ options.typeFieldName.text ++ ": " ++ said
        = discriminantText options.typeFieldName typeName := by
      generalize hline : "  " ++ options.typeFieldName.text ++ ": " ++ said = line at htext
      cases htext
      rfl
    rw [discriminantText_eq] at heq
    rw [hname]
    apply String.toList_inj.mp
    have hchars := congrArg String.toList heq
    simpa using hchars
  · rintro rfl
    obtain ⟨typeName, texts, hlaid⟩ := isLaidOut_of_declaration h
    have hname : definition.nameText = typeName.text := by
      rw [Node.nameText, hlaid.name, Option.getD_some]
    have hblocks := hlaid.blocks
    refine ⟨typeName, texts, 2, hlaid, rfl, ?_⟩
    unfold blocksOf at hblocks
    rw [List.append_assoc] at hblocks
    rcases hblocks with _ | ⟨_, _ | ⟨_, _ | ⟨hthird, -⟩⟩⟩
    cases hthird
    rw [hname, ← discriminantText_eq]
    rfl

/-- A definition, its declaration and its member of the union of names: the declaration
gives the type field one literal; the member is read as the name of the definition; and
the two are the same, and the one of the declaration is read as the name, exactly if
nothing in the name is escaped. -/
structure NamesAgree (options : Options) (definition : Node) (text member : String) : Prop where
  given : ∃ said, GivesLiteral options definition text said
  read : ReadsAs member definition.nameText
  same : ∀ said, GivesLiteral options definition text said →
    (said = member ↔ IsUnescaped definition.nameText)
  readBack : ∀ said, GivesLiteral options definition text said →
    (ReadsAs said definition.nameText ↔ IsUnescaped definition.nameText)

/-- What is declared is compared with the literal of its name. -/
theorem namesAgree_of_declaration {definition : Node} {text : String}
    (h : declaration options definition = .ok text) :
    NamesAgree options definition text (literal definition.nameText) where
  given := ⟨_, (givesLiteral_iff h).mpr rfl⟩
  read := readsAs_literal definition.nameText
  same said hsaid := by
    rw [(givesLiteral_iff h).mp hsaid]
    exact bareLiteral_eq_literal_iff definition.nameText
  readBack said hsaid := by
    rw [(givesLiteral_iff h).mp hsaid]
    exact readsAs_bareLiteral_iff definition.nameText

/-- The definitions of a section in their order with their declarations and with the
members of the union of names: one each for every definition, and compared at each place. -/
structure ComparedNames (options : Options) (sorted : List Node)
    (declarations members : List String) : Prop where
  declared : declarations.length = sorted.length
  listed : members.length = sorted.length
  agree : ∀ (i : ℕ) definition text member, sorted[i]? = some definition →
    declarations[i]? = some text → members[i]? = some member →
    NamesAgree options definition text member

theorem comparedNames_of_listed {definitions sorted : List Node} {declarations : List String}
    (h : Listed options definitions sorted declarations) :
    ComparedNames options sorted declarations (sorted.map fun node => literal node.nameText) where
  declared := h.declared.length_eq.symm
  listed := List.length_map _
  agree i definition text member hdefinition htext hmember := by
    obtain ⟨hi, hdefinition⟩ := List.getElem?_eq_some_iff.mp hdefinition
    obtain ⟨hi', htext⟩ := List.getElem?_eq_some_iff.mp htext
    have hdeclared : declaration options definition = .ok text := by
      have hat := (List.forall₂_iff_get.mp h.declared).2 i hi hi'
      rwa [List.get_eq_getElem, List.get_eq_getElem, hdefinition, htext] at hat
    have hliteral : literal definition.nameText = member := by
      rw [List.getElem?_map, List.getElem?_eq_getElem hi, hdefinition] at hmember
      exact Option.some.inj hmember
    rw [← hliteral]
    exact namesAgree_of_declaration hdeclared

/-- **The literal of the type field and the member of the union of names.** In a module
that is rendered, the union of names of a section has one member for each definition,
which is read as its name; and the declaration at this place gives the type field the
same literal, or one that is read as the name, exactly if nothing in the name is
escaped. -/
theorem moduleOf_typeLiterals {schema : Schema} {text : String}
    (hnames : ∀ part, ∀ node ∈ (schema.registry part).definitions, HasTextName node)
    (h : moduleOf options schema = .ok text) :
    ∃ (sorted : Section → List Node) (declarations members : Section → List String),
      (∀ part, Listed options (schema.registry part).definitions (sorted part)
        (declarations part)) ∧
      text = fill (content options sorted declarations) layout ∧
      (∀ part, Listing.names.text (sorted part) (declarations part)
        = alternatives (members part)) ∧
      ∀ part, ComparedNames options (sorted part) (declarations part) (members part) := by
  obtain ⟨sorted, declarations, hsorted, hdeclared, hfill⟩ := moduleOf_eq_fill hnames h
  have hlisted : ∀ part, Listed options (schema.registry part).definitions (sorted part)
      (declarations part) := fun part => listed_of_mapM (hsorted part) (hdeclared part)
  refine ⟨sorted, declarations, fun part => (sorted part).map fun node => literal node.nameText,
    hlisted, hfill, fun part => ?_, fun part => ?_⟩
  · rw [Listing.text]
  · exact comparedNames_of_listed (hlisted part)

/-- A document type without fields. -/
def emptyDocument (name : String) : Node :=
  .document (.str name) (.group []) (.group []) .null (.obj [])

/-- Two document types, one of which has a quote in its name. -/
def quotedSchema : Schema :=
  { documents := [(.str "Post", emptyDocument "Post"), (.str "It's", emptyDocument "It's")] }

theorem quotedSchema_hasTextNames :
    ∀ part, ∀ node ∈ (quotedSchema.registry part).definitions, HasTextName node := by
  intro part node hmem
  cases part with
  | nested => cases hmem
  | documents =>
    rcases hmem with _ | ⟨_, _ | ⟨_, ⟨⟩⟩⟩
    · exact ⟨"Post", rfl⟩
    · exact ⟨"It's", rfl⟩

theorem quotedSchema_rendered : ∃ text, moduleOf {} quotedSchema = .ok text := by
  refine exists_moduleOf quotedSchema_hasTextNames fun part node hmem => ?_
  cases part with
  | nested => cases hmem
  | documents => rcases hmem with _ | ⟨_, _ | ⟨_, ⟨⟩⟩⟩ <;> exact ⟨_, rfl⟩

theorem quotedSchema_compared :
    (∀ part, ∀ node ∈ (quotedSchema.registry part).definitions, HasTextName node) ∧
    ∃ text, moduleOf {} quotedSchema = .ok text ∧
      ∃ (sorted : Section → List Node) (declarations members : Section → List String),
        (∀ part, Listed {} (quotedSchema.registry part).definitions (sorted part)
          (declarations part)) ∧
        text = fill (content {} sorted declarations) layout ∧
        (∀ part, Listing.names.text (sorted part) (declarations part)
          = alternatives (members part)) ∧
        ∀ part, ComparedNames {} (sorted part) (declarations part) (members part) := by
  obtain ⟨text, htext⟩ := quotedSchema_rendered
  exact ⟨quotedSchema_hasTextNames, text, htext,
    moduleOf_typeLiterals quotedSchema_hasTextNames htext⟩

/-- A quote in the name of a type makes its declaration say another literal than the union
of names, and one that is not read as the name. -/
theorem quotedName_disagrees :
    (∃ text, moduleOf {} quotedSchema = .ok text) ∧
    emptyDocument "It's" ∈ (quotedSchema.registry .documents).definitions ∧
    ∃ text said, declaration {} (emptyDocument "It's") = .ok text ∧
      GivesLiteral {} (emptyDocument "It's") text said ∧
      said ≠ literal "It's" ∧ ¬ ReadsAs said "It's" := by
  have hescaped : ¬ IsUnescaped "It's" := by decide
  have hdeclared : ∃ text, declaration {} (emptyDocument "It's") = .ok text := ⟨_, rfl⟩
  obtain ⟨text, htext⟩ := hdeclared
  refine ⟨quotedSchema_rendered, List.mem_cons_of_mem _ List.mem_cons_self, text,
    bareLiteral "It's", htext, (givesLiteral_iff htext).mpr rfl, ?_, ?_⟩
  · rwa [ne_eq, bareLiteral_eq_literal_iff]
  · rwa [readsAs_bareLiteral_iff]

end TypeScript
end ContentDecl
