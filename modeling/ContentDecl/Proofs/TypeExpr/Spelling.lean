/-
# Type expressions spell what fields mean

The printer of type expressions joins texts and looks at none of them. Still, for
a readable field the text spells the type that the field is meant to have, and no
other: a union below brackets stands between parentheses, an option cannot leave
its quotes, and the mark of a member that is not required joins the union before
it.

The induction is on the field: each text is derived by the grammar from the texts
of its parts.

Key theorems: `kind_alternatives`, `item_primary`, `fieldType_spells_only`.
-/
import ContentDecl.Proofs.TypeExpr.Meaning
import ContentDecl.Proofs.TypeExpr.Reader

namespace ContentDecl
namespace TypeScript

open Result
open TypeExpr (oneOf)

@[simp] theorem textsIn_listing (texts : List String) : textsIn (listing texts) = texts := by
  simp [textsIn, listing, Json.elements?, Function.comp_def, Json.text]

/-- One more member behind a union. -/
theorem Alternatives.concat {cs ds : List Char} {t : TypeExpr} (hd : Postfix ds t) :
    ∀ {ts : List TypeExpr}, Alternatives cs ts →
      Alternatives (cs ++ ' ' :: '|' :: ' ' :: ds) (ts ++ [t])
  | _, .one h => .more h (.one hd)
  | _, .more h hs => by
    rw [List.append_assoc]
    exact .more h (hs.concat hd)

/-- A blank on each side does not end a comment. -/
theorem isComment_spaced {d : String} (hd : IsComment d) : IsComment (" " ++ d ++ " ") := by
  intro h
  have h : ['*', '/'] <:+: (' ' :: d.toList) ++ [' '] := by simpa using h
  rcases List.infix_concat_iff.mp h with ⟨before, hend⟩ | h
  · have hlast := congrArg List.getLast? hend
    rw [List.getLast?_concat] at hlast
    simp at hlast
  · rcases List.infix_cons_iff.mp h with hstart | h
    · simp at hstart
    · exact hd h

/-- A member with the mark that it may be undefined, or without. -/
theorem Alternatives.marked {text : String} {ts : List TypeExpr} (head : Head)
    (h : Alternatives text.toList ts) :
    Alternatives (text ++ if head.isRequired.isTrue then "" else " | undefined").toList
      (memberTypes head ts) := by
  unfold memberTypes
  by_cases hr : head.isRequired.isTrue = true
  · simpa [hr] using h
  · have hu : Postfix "undefined".toList (.name "undefined") := .primary (.name (by decide))
    simpa [hr] using Alternatives.concat hu h

/-- The line of a member spells the member. -/
theorem line_memberLine {head : Head} {text : String} {ts : List TypeExpr}
    (hh : readable.head head) (h : Alternatives text.toList ts) :
    Line (memberLine head (.str text)).toList
      ⟨commentOf? head.description, head.name.text, oneOf (memberTypes head ts)⟩ := by
  obtain ⟨⟨s, hname, hs⟩, hd⟩ := hh
  have hplain := Line.plain 2 hs (h.marked head)
  rw [hname]
  by_cases htrue : head.description.isTrue = true
  · obtain hnull | ⟨d, hdesc, hd⟩ := hd
    · simp [hnull, Json.isTrue] at htrue
    · have hline := Line.commented 2 2 (isComment_spaced hd) hs (h.marked head)
      simp only [hdesc] at htrue
      simpa [memberLine, comment, commentOf?, hname, hdesc, htrue, Json.text, indent, blanks]
        using hline
  · simpa [memberLine, comment, commentOf?, hname, htrue, Json.text, indent, blanks] using hplain

theorem lines_intercalate : ∀ {lines : List String} {ms : List (Member TypeExpr)}, lines ≠ [] →
    List.Forall₂ (fun line m => Line line.toList m) lines ms →
    Lines (String.intercalate "\n" lines).toList ms
  | [], _, hne, _ => absurd rfl hne
  | [s], [m], _, .cons h .nil => by
    rw [String.intercalate_singleton]
    exact .one h
  | s :: s' :: lines, m :: ms, _, .cons h hs => by
    rw [String.intercalate_cons_cons, String.toList_append, String.toList_append,
      List.append_assoc]
    exact .more h (lines_intercalate (by simp) hs)

/-- An object type spells its members, if each line spells one. -/
theorem primary_objectType {lines : List String} {ms : List (Member TypeExpr)}
    (h : List.Forall₂ (fun line m => Line line.toList m) lines ms) :
    Primary (objectType lines).toList (.object ms) := by
  rw [objectType, String.toList_append, String.toList_append, List.append_assoc]
  cases h with
  | nil => exact .emptyObject
  | cons hl hs => exact .object (lines_intercalate (by simp) (.cons hl hs))

theorem primary_parenthesized {text : String} {ts : List TypeExpr}
    (h : Alternatives text.toList ts) : Primary (parenthesized text).toList (oneOf ts) := by
  rw [parenthesized, String.toList_append, String.toList_append, List.append_assoc]
  exact .parenthesized h

/-- The literals of some options are a union of them. -/
theorem alternatives_literals {options : List String} (hne : options ≠ []) :
    Alternatives (union (options.map literal)).toList (options.map .literal) := by
  refine alternatives_union (by simpa using hne) ?_
  rw [List.forall₂_map_left_iff, List.forall₂_map_right_iff, List.forall₂_same]
  exact fun s _ => .primary (primary_literal s)

mutual

theorem kind_alternatives : ∀ {kind : FieldKind}, readable.Kind kind →
    ∃ text, kindType kind = .ok (.str text) ∧ Alternatives text.toList (kindTypes kind)
  | .bare, h => h.elim
  | .boolean, _ => ⟨_, rfl, .one (.primary (.name (by decide)))⟩
  | .string, _ => ⟨_, rfl, .one (.primary (.name (by decide)))⟩
  | .number, _ => ⟨_, rfl, .one (.primary (.name (by decide)))⟩
  | .json, _ => ⟨_, rfl, .one (.primary (.name (by decide)))⟩
  | .date, _ => ⟨_, rfl, .one (.primary (.name (by decide)))⟩
  | .markdown, _ => ⟨_, rfl, .one (.primary (.name (by decide)))⟩
  | .mdx, _ => ⟨_, rfl, .one (.primary (.name (by decide)))⟩
  | .nested _, ⟨s, rfl, hs⟩ => ⟨s, rfl, .one (.primary (.name hs))⟩
  | .nestedPolymorphic _, ⟨names, rfl, hne, hs⟩ => by
    have htext : kindType (.nestedPolymorphic (listing names)) = .ok (.str (union names)) := by
      rw [kindType, unionOf_texts]
      rfl
    refine ⟨union names, htext, ?_⟩
    rw [kindTypes, textsIn_listing]
    refine alternatives_union hne (List.forall₂_map_right_iff.mpr (List.forall₂_same.mpr ?_))
    exact fun s hmem => .primary (.name (hs s hmem))
  | .nestedUnnamed type, h => by
    obtain ⟨text, htext, hp⟩ := shape_primary h
    refine ⟨text, ?_, .one (.primary hp)⟩
    rw [kindType, htext]
    rfl
  | .reference _, _ => ⟨_, rfl, .one (.primary (.name (by decide)))⟩
  | .referencePolymorphic _, _ => ⟨_, rfl, .one (.primary (.name (by decide)))⟩
  | .list item, h => by
    obtain ⟨text, htext, hp⟩ := item_primary h
    refine ⟨text ++ "[]", ?_, ?_⟩
    · rw [kindType, htext]
      rfl
    · rw [String.toList_append]
      exact .one (.list (.primary hp))
  | .listPolymorphic (.group items), ⟨hne, h⟩ => by
    obtain ⟨texts, htexts, hs⟩ := items_primary h
    have hne : texts ≠ [] := by
      rintro rfl
      cases items with
      | nil => exact hne rfl
      | cons _ _ => cases hs
    have hunion := alternatives_union hne (hs.imp fun _ _ hp => .primary hp)
    refine ⟨parenthesized (union texts) ++ "[]", ?_, ?_⟩
    · rw [kindType, itemTypes, htexts, ok_bind, polymorphicListType, ← listing, unionOf_texts]
      rfl
    · rw [String.toList_append]
      exact .one (.list (.primary (primary_parenthesized hunion)))
  | .enum _, ⟨options, rfl, hne⟩ => by
    refine ⟨union (options.map literal), ?_, ?_⟩
    · rw [kindType, literalsOf_texts]
      rfl
    · rw [kindTypes, textsIn_listing]
      exact alternatives_literals hne

/-- The text of an item binds tighter than any operator. -/
theorem item_primary : ∀ {node : Node}, readable.Item node →
    ∃ text, itemType node = .ok (.str text) ∧ Primary text.toList (itemMeaning node)
  | .item .boolean, _ => ⟨_, rfl, .name (by decide)⟩
  | .item .string, _ => ⟨_, rfl, .name (by decide)⟩
  | .item (.nested _), ⟨s, rfl, hs⟩ => ⟨s, rfl, .name hs⟩
  | .item (.enum _), ⟨options, rfl, hne⟩ => by
    refine ⟨parenthesized (union (options.map literal)), ?_, ?_⟩
    · rw [itemType, itemKindType, literalsOf_texts]
      rfl
    · rw [itemMeaning, itemKindMeaning, textsIn_listing]
      exact primary_parenthesized (alternatives_literals hne)
  | .item (.nestedUnnamed type), h => by
    obtain ⟨text, htext, hp⟩ := shape_primary h
    refine ⟨text, ?_, hp⟩
    rw [itemType, itemKindType, htext]
    rfl
  | .item (.reference _), _ => ⟨_, rfl, .name (by decide)⟩

theorem items_primary : ∀ {items : List Node}, readable.Items items →
    ∃ texts : List String, itemTypesOf items = .ok (texts.map .str) ∧
      List.Forall₂ (fun text t => Primary text.toList t) texts (itemMeanings items)
  | [], _ => ⟨[], rfl, .nil⟩
  | node :: rest, ⟨h, hs⟩ => by
    obtain ⟨text, htext, hp⟩ := item_primary h
    obtain ⟨texts, htexts, hps⟩ := items_primary hs
    refine ⟨text :: texts, ?_, .cons hp hps⟩
    rw [itemTypesOf, htext, htexts]
    rfl

theorem shape_primary : ∀ {node : Node}, readable.Shape node →
    ∃ text, shapeType node = .ok text ∧ Primary text.toList (shapeMeaning node)
  | .shape (.group fields), h => by
    obtain ⟨lines, hlines, hs⟩ := fields_lines h
    refine ⟨objectType lines, ?_, primary_objectType hs⟩
    rw [shapeType, fieldLines, hlines]
    rfl

theorem fields_lines : ∀ {fields : List Node}, readable.Fields fields →
    ∃ lines, fieldLinesOf fields = .ok lines ∧
      List.Forall₂ (fun line m => Line line.toList m) lines (fieldMembers fields)
  | [], _ => ⟨[], rfl, .nil⟩
  | .field head kind :: rest, ⟨⟨hh, hk⟩, hs⟩ => by
    obtain ⟨text, htext, ha⟩ := kind_alternatives hk
    obtain ⟨lines, hlines, hls⟩ := fields_lines hs
    refine ⟨memberLine head (.str text) :: lines, ?_, .cons (line_memberLine hh ha) hls⟩
    rw [fieldLinesOf, fieldLine, htext, hlines]
    rfl

end

/-- **The text of a field spells the type that the field is meant to have, and
spells no other**; the reader finds this type and leaves nothing of the text. -/
theorem fieldType_spells_only {node : Node} (h : readable.Field node) :
    ∃ text, fieldType node = .ok (.str text) ∧
      TypeExpr.read text = some (fieldMeaning node) ∧
      ∀ t, TypeExpr.Spells text t ↔ t = fieldMeaning node := by
  cases node with
  | field head kind =>
    obtain ⟨text, htext, ha⟩ := kind_alternatives h.2
    have hs : TypeExpr.Spells text (fieldMeaning (.field head kind)) := ⟨_, ha, rfl⟩
    refine ⟨text, htext, hs.read, fun t => ⟨fun ht => ht.unique hs, ?_⟩⟩
    rintro rfl
    exact hs
  | _ => exact h.elim

/-- A list field whose items are texts, options with quotes and bars in them, and
a shape with a described field. -/
def blocksField : Node :=
  .field { name := .str "blocks" }
    (.listPolymorphic (.group
      [.item .string,
        .item (.enum (listing ["a' | 'b", "\\"])),
        .item (.nestedUnnamed (.shape (.group
          [.field { name := .str "seo", description := .str "up / down" }
            (.enum (listing ["x"]))])))]))

theorem blocksField_spells_only : readable.Field blocksField ∧
    ∃ text, fieldType blocksField = .ok (.str text) ∧
      TypeExpr.read text = some (fieldMeaning blocksField) ∧
      ∀ t, TypeExpr.Spells text t ↔ t = fieldMeaning blocksField := by
  have hblocks : IsName "blocks" := by decide
  have hseo : IsName "seo" := by decide
  have hcomment : IsComment "up / down" := by decide +kernel
  have hshape : readable.Item (.item (.nestedUnnamed (.shape (.group
      [.field { name := .str "seo", description := .str "up / down" } (.enum (listing ["x"]))])))) :=
    ⟨⟨⟨⟨_, rfl, hseo⟩, .inr ⟨_, rfl, hcomment⟩⟩, ⟨_, rfl, by simp⟩⟩, trivial⟩
  have hfield : readable.Field blocksField :=
    ⟨⟨⟨_, rfl, hblocks⟩, .inl rfl⟩, by simp [readable], trivial, ⟨_, rfl, by simp⟩, hshape, trivial⟩
  exact ⟨hfield, fieldType_spells_only hfield⟩

end TypeScript
end ContentDecl
