/-
# Type expressions of fields in their places

A field with every node in its place has a kind that the printer knows, and so
has everything in it, so a type expression can fail to be made only by a value: a
name of a type that is no text, an option that is no text. If the names of nested
types and the options are texts, the type expression is made, and it is a text.

Both statements go by induction on the field, along the functions of the printer.

Key definitions: `textual`, `Fault.OfKnownKind`.
Key theorems: `kindType_known`, `kindType_text`.
-/
import ContentDecl.Proofs.Dump.Parsed
import ContentDecl.Proofs.TypeExpr.Union
import ContentDecl.TypeScript.FieldType

namespace ContentDecl

/-- The fault is another one than that a node has no type expression. -/
def Fault.OfKnownKind (fault : Fault) : Prop :=
  ∀ kind className, fault ≠ .unhandledKind kind className

/-- Names of nested types and options are texts; nothing is asked of the nodes. -/
def textual : Demand where
  typeName v := v.isText = true
  typeNames v := ∀ w ∈ v.elements?.getD [], w.isText = true
  options v := ∀ w ∈ v.elements?.getD [], w.isText = true
  stray := True

namespace TypeScript

open Result

/-! ### Faults -/

/-- A value that is no text does not have the type that is needed. -/
theorem asText_failsOnly {p : Fault → Prop} {v : Json} (h : v.isText = true ∨ p .typeMismatch) :
    FailsOnly p (asText v) := by
  cases v with
  | str s => exact .ok s
  | _ => exact .error (h.resolve_left nofun)

theorem asText_known (v : Json) : FailsOnly Fault.OfKnownKind (asText v) :=
  asText_failsOnly (.inr nofun)

theorem literalOf_known (v : Json) : FailsOnly Fault.OfKnownKind (literalOf v) := by
  unfold literalOf
  split
  · exact .ok _
  · exact .error nofun

theorem unionOf_known (v : Json) : FailsOnly Fault.OfKnownKind (unionOf v) := by
  refine .map _ ?_
  unfold textsOf
  split
  · exact .mapM fun w _ => asText_known w
  · exact .error nofun

theorem literalsOf_known (v : Json) : FailsOnly Fault.OfKnownKind (literalsOf v) := by
  unfold literalsOf
  split
  · exact .mapM fun w _ => literalOf_known w
  · exact .error nofun

mutual

/-- The type expression of a kind fails by a value only. -/
theorem kindType_known : ∀ {kind : FieldKind}, wellPlaced.Kind kind →
    FailsOnly Fault.OfKnownKind (kindType kind)
  | .bare, h => h.elim
  | .boolean, _ => .ok _
  | .string, _ => .ok _
  | .number, _ => .ok _
  | .json, _ => .ok _
  | .date, _ => .ok _
  | .markdown, _ => .ok _
  | .mdx, _ => .ok _
  | .nested _, _ => .ok _
  | .nestedPolymorphic typeNames, _ => .map _ (unionOf_known typeNames)
  | .nestedUnnamed _, h => .map _ (shapeType_known h)
  | .reference _, _ => .ok _
  | .referencePolymorphic _, _ => .ok _
  | .list _, h => .bind (itemType_known h) fun type _ => .map _ (.map _ (asText_known type))
  | .listPolymorphic (.group _), h =>
    .bind (itemTypesOf_known h.2) fun types _ => .map _ (.map _ (unionOf_known (.arr types)))
  | .enum options, _ => .map _ (literalsOf_known options)

theorem itemType_known : ∀ {node : Node}, wellPlaced.Item node →
    FailsOnly Fault.OfKnownKind (itemType node)
  | .item .boolean, _ => .ok _
  | .item .string, _ => .ok _
  | .item (.nested _), _ => .ok _
  | .item (.enum options), _ => .map _ (literalsOf_known options)
  | .item (.nestedUnnamed _), h => .map _ (shapeType_known h)
  | .item (.reference _), _ => .ok _

theorem itemTypesOf_known : ∀ {nodes : List Node}, wellPlaced.Items nodes →
    FailsOnly Fault.OfKnownKind (itemTypesOf nodes)
  | [], _ => .ok _
  | _ :: _, ⟨h, hs⟩ =>
    .bind (itemType_known h) fun _ _ => .bind (itemTypesOf_known hs) fun _ _ => .ok _

theorem shapeType_known : ∀ {node : Node}, wellPlaced.Shape node →
    FailsOnly Fault.OfKnownKind (shapeType node)
  | .shape (.group _), h => .map _ (fieldLinesOf_known h)

theorem fieldLinesOf_known : ∀ {nodes : List Node}, wellPlaced.Fields nodes →
    FailsOnly Fault.OfKnownKind (fieldLinesOf nodes)
  | [], _ => .ok _
  | _ :: _, ⟨h, hs⟩ =>
    .bind (fieldLine_known h) fun _ _ => .bind (fieldLinesOf_known hs) fun _ _ => .ok _

theorem fieldLine_known : ∀ {node : Node}, wellPlaced.Field node →
    FailsOnly Fault.OfKnownKind (fieldLine node)
  | .field _ _, h => .map _ (kindType_known h.2)

end

/-! ### Texts -/

theorem eq_str_of_isText {v : Json} (h : v.isText = true) : ∃ s, v = .str s := by
  cases v with
  | str s => exact ⟨s, rfl⟩
  | _ => simp [Json.isText] at h

/-- Elements that are texts are the listing of these texts. -/
theorem exists_listing : ∀ vs : List Json, (∀ w ∈ vs, w.isText = true) →
    ∃ texts, Json.arr vs = listing texts
  | [], _ => ⟨[], rfl⟩
  | v :: vs, h => by
    obtain ⟨s, rfl⟩ := eq_str_of_isText (h v List.mem_cons_self)
    obtain ⟨texts, htexts⟩ := exists_listing vs fun w hmem => h w (List.mem_cons_of_mem _ hmem)
    obtain rfl := Json.arr.inj htexts
    exact ⟨s :: texts, rfl⟩

mutual

/-- The type expression of a kind is a text. -/
theorem kindType_text : ∀ {kind : FieldKind}, wellPlaced.Kind kind → textual.Kind kind →
    ∃ s, kindType kind = .ok (.str s)
  | .bare, h, _ => h.elim
  | .boolean, _, _ => ⟨_, rfl⟩
  | .string, _, _ => ⟨_, rfl⟩
  | .number, _, _ => ⟨_, rfl⟩
  | .json, _, _ => ⟨_, rfl⟩
  | .date, _, _ => ⟨_, rfl⟩
  | .markdown, _, _ => ⟨_, rfl⟩
  | .mdx, _, _ => ⟨_, rfl⟩
  | .nested _, _, ht => by
    obtain ⟨s, rfl⟩ := eq_str_of_isText ht
    exact ⟨s, rfl⟩
  | .nestedPolymorphic _, ⟨vs, rfl⟩, ht => by
    obtain ⟨texts, htexts⟩ := exists_listing vs ht
    refine ⟨union texts, ?_⟩
    rw [kindType, htexts, unionOf_texts]
    rfl
  | .nestedUnnamed _, h, ht => by
    obtain ⟨s, hs⟩ := shapeType_text h ht
    refine ⟨s, ?_⟩
    rw [kindType, hs]
    rfl
  | .reference _, _, _ => ⟨_, rfl⟩
  | .referencePolymorphic _, _, _ => ⟨_, rfl⟩
  | .list _, h, ht => by
    obtain ⟨s, hs⟩ := itemType_text h ht
    refine ⟨s ++ "[]", ?_⟩
    rw [kindType, hs]
    rfl
  | .listPolymorphic (.group _), h, ht => by
    obtain ⟨texts, htexts⟩ := itemTypesOf_text h.2 ht.2
    refine ⟨parenthesized (union texts) ++ "[]", ?_⟩
    rw [kindType, itemTypes, htexts, ok_bind, polymorphicListType, ← listing, unionOf_texts]
    rfl
  | .enum _, ⟨vs, rfl⟩, ht => by
    obtain ⟨texts, htexts⟩ := exists_listing vs ht
    refine ⟨union (texts.map literal), ?_⟩
    rw [kindType, htexts, literalsOf_texts]
    rfl

theorem itemType_text : ∀ {node : Node}, wellPlaced.Item node → textual.Item node →
    ∃ s, itemType node = .ok (.str s)
  | .item .boolean, _, _ => ⟨_, rfl⟩
  | .item .string, _, _ => ⟨_, rfl⟩
  | .item (.nested _), _, ht => by
    obtain ⟨s, rfl⟩ := eq_str_of_isText ht
    exact ⟨s, rfl⟩
  | .item (.enum _), ⟨vs, rfl⟩, ht => by
    obtain ⟨texts, htexts⟩ := exists_listing vs ht
    refine ⟨parenthesized (union (texts.map literal)), ?_⟩
    rw [itemType, itemKindType, htexts, literalsOf_texts]
    rfl
  | .item (.nestedUnnamed _), h, ht => by
    obtain ⟨s, hs⟩ := shapeType_text h ht
    refine ⟨s, ?_⟩
    rw [itemType, itemKindType, hs]
    rfl
  | .item (.reference _), _, _ => ⟨_, rfl⟩

theorem itemTypesOf_text : ∀ {nodes : List Node}, wellPlaced.Items nodes →
    textual.Items nodes → ∃ texts : List String, itemTypesOf nodes = .ok (texts.map .str)
  | [], _, _ => ⟨[], rfl⟩
  | _ :: _, ⟨h, hs⟩, ⟨ht, hts⟩ => by
    obtain ⟨s, hs'⟩ := itemType_text h ht
    obtain ⟨texts, htexts⟩ := itemTypesOf_text hs hts
    refine ⟨s :: texts, ?_⟩
    rw [itemTypesOf, hs', htexts]
    rfl

theorem shapeType_text : ∀ {node : Node}, wellPlaced.Shape node → textual.Shape node →
    ∃ s, shapeType node = .ok s
  | .shape (.group _), h, ht => by
    obtain ⟨lines, hlines⟩ := fieldLinesOf_text h ht
    refine ⟨objectType lines, ?_⟩
    rw [shapeType, fieldLines, hlines]
    rfl

theorem fieldLinesOf_text : ∀ {nodes : List Node}, wellPlaced.Fields nodes →
    textual.Fields nodes → ∃ lines, fieldLinesOf nodes = .ok lines
  | [], _, _ => ⟨[], rfl⟩
  | _ :: _, ⟨h, hs⟩, ⟨ht, hts⟩ => by
    obtain ⟨line, hline⟩ := fieldLine_text h ht
    obtain ⟨lines, hlines⟩ := fieldLinesOf_text hs hts
    refine ⟨line :: lines, ?_⟩
    rw [fieldLinesOf, hline, hlines]
    rfl

theorem fieldLine_text : ∀ {node : Node}, wellPlaced.Field node → textual.Field node →
    ∃ line, fieldLine node = .ok line
  | .field head _, h, ht => by
    obtain ⟨s, hs⟩ := kindType_text h.2 ht.2
    refine ⟨memberLine head (.str s), ?_⟩
    rw [fieldLine, hs]
    rfl

end

end TypeScript
end ContentDecl
