/-
# Unions without members

A union is printed as its members between bars, so of one without members nothing is
left: the type expression of a field is empty, and an item or a list has an empty pair of
parentheses. The unions of a module are guarded against this, those of fields are not.

`Visit.expr` is the type expression of a node with a filler where a union has no members.
With nothing for a filler it is what is rendered; with the type without values it is what
a module would print. One is the other with the filler put in once for each union
without members in the node (`Fills`), so the two are the same exactly if there is none.

Both inductions go along the visits: what is printed for a node is put together of what
is printed for its parts.

Key definitions: `unionOr`, `kindExpr`, `Visit.expr`, `Visit.isEmptyUnion`,
`Visit.emptyUnions`, `Fills`, `IsBlank`, `UnionsPrinted`.
Key theorems: `Visit.expr_fills`, `Visit.text_of_rendered`, `Visit.not_isBlank_expr`,
`fieldType_emptyUnions`.
-/
import ContentDecl.Proofs.Rendering.DeclarationLayout
import ContentDecl.Proofs.TypeExpr.Meaning
import Mathlib.Algebra.GroupWithZero.Nat

namespace ContentDecl

open Result

namespace TypeScript

/-! ### Type expressions with a filler -/

/-- The members of a union between bars, or the filler if there are none. -/
def unionOr (filler : String) (types : List String) : String :=
  if types.isEmpty then filler else union types

@[simp] theorem unionOr_nil (filler : String) : unionOr filler [] = filler := rfl

@[simp] theorem unionOr_cons (filler type : String) (types : List String) :
    unionOr filler (type :: types) = union (type :: types) := rfl

/-- The unions of a module are filled with the type without values. -/
theorem unionOr_never (types : List String) : unionOr never types = unionText types := rfl

/-- The guarded printer of unions fills with it as well. -/
theorem unionOrNever_texts (texts : List String) :
    unionOrNever (listing texts) = .ok (unionOr never texts) := by
  cases texts with
  | nil => rfl
  | cons text texts =>
    have htrue : (listing (text :: texts)).isTrue = true := rfl
    rw [unionOrNever, if_pos htrue, unionOf_texts, unionOr_cons]

/-- Without a filler nothing stands for a union without members. -/
theorem unionOr_empty (types : List String) : unionOr "" types = union types := by
  cases types <;> rfl

/-- The items that a list field with several kinds holds. -/
def groupMembers : Node → List Node
  | .group nodes => nodes
  | _ => []

mutual

/-- The type expression of a kind of field, with a filler for unions without members. -/
def kindExpr (filler : String) : FieldKind → String
  | .bare => ""
  | .boolean => "boolean"
  | .string => "string"
  | .number => "number"
  | .json => "any"
  | .date => "string"
  | .markdown => "Markdown"
  | .mdx => "MDX"
  | .nested typeName => typeName.text
  | .nestedPolymorphic typeNames => unionOr filler (textsIn typeNames)
  | .nestedUnnamed type => shapeExpr filler type
  | .reference _ => "string"
  | .referencePolymorphic _ => "string"
  | .list item => itemExpr filler item ++ "[]"
  | .listPolymorphic items => parenthesized (unionOr filler (itemGroupExprs filler items)) ++ "[]"
  | .enum options => unionOr filler ((textsIn options).map literal)

/-- The same of an item. -/
def itemExpr (filler : String) : Node → String
  | .item kind => itemKindExpr filler kind
  | _ => ""

def itemKindExpr (filler : String) : ItemKind → String
  | .boolean => "boolean"
  | .string => "string"
  | .nested typeName => typeName.text
  | .enum options => parenthesized (unionOr filler ((textsIn options).map literal))
  | .nestedUnnamed type => shapeExpr filler type
  | .reference _ => "string"

def itemGroupExprs (filler : String) : Node → List String
  | .group items => itemExprs filler items
  | _ => []

def itemExprs (filler : String) : List Node → List String
  | [] => []
  | node :: rest => itemExpr filler node :: itemExprs filler rest

/-- The same of a shape, one line for each field. -/
def shapeExpr (filler : String) : Node → String
  | .shape (.group fields) => objectType (fieldExprs filler fields)
  | _ => ""

def fieldExprs (filler : String) : List Node → List String
  | [] => []
  | node :: rest => lineExpr filler node :: fieldExprs filler rest

def lineExpr (filler : String) : Node → String
  | .field head kind => memberLine head (.str (kindExpr filler kind))
  | _ => ""

end

theorem itemExprs_eq_map (filler : String) : ∀ nodes : List Node,
    itemExprs filler nodes = nodes.map (itemExpr filler)
  | [] => rfl
  | node :: nodes => by rw [itemExprs, itemExprs_eq_map filler nodes, List.map_cons]

/-- The items of a list field with several kinds, one after the other. -/
theorem itemGroupExprs_eq_map (filler : String) (items : Node) :
    itemGroupExprs filler items = (groupMembers items).map (itemExpr filler) := by
  cases items with
  | group nodes => rw [itemGroupExprs, itemExprs_eq_map, groupMembers]
  | _ => rw [itemGroupExprs, groupMembers, List.map_nil] <;> exact nofun

theorem fieldExprs_eq_map (filler : String) : ∀ nodes : List Node,
    fieldExprs filler nodes = nodes.map (lineExpr filler)
  | [] => rfl
  | node :: nodes => by rw [fieldExprs, fieldExprs_eq_map filler nodes, List.map_cons]

end TypeScript

open TypeScript

namespace Visit

/-- The type expression of a node in its position, with a filler for unions without
members. -/
def expr (filler : String) : Visit → String
  | ⟨.field, .field _ kind⟩ => kindExpr filler kind
  | ⟨.item, node⟩ => itemExpr filler node
  | _ => ""

/-- What the renderer makes of a node in its position. -/
def rendered : Visit → Except Fault Json
  | ⟨.field, node⟩ => fieldType node
  | ⟨.item, node⟩ => itemType node

/-- A node in its position meets a demand. -/
def Meets (d : Demand) : Visit → Prop
  | ⟨.field, node⟩ => d.Field node
  | ⟨.item, node⟩ => d.Item node

/-- Whether a node is printed as a union and has no members for it. -/
def isEmptyUnion : Visit → Bool
  | ⟨.field, .field _ (.nestedPolymorphic typeNames)⟩ => (textsIn typeNames).isEmpty
  | ⟨.field, .field _ (.listPolymorphic items)⟩ => (groupMembers items).isEmpty
  | ⟨.field, .field _ (.enum options)⟩ => (textsIn options).isEmpty
  | ⟨.item, .item (.enum options)⟩ => (textsIn options).isEmpty
  | _ => false

/-- The number of unions without members in a node, itself included. -/
def emptyUnions (v : Visit) : ℕ := v.preorder.countP isEmptyUnion

theorem parts_listPolymorphic (head : Head) (items : Node) :
    parts ⟨.field, .field head (.listPolymorphic items)⟩
      = (groupMembers items).map (⟨.item, ·⟩) := by
  cases items <;> rfl

theorem emptyUnions_eq (v : Visit) :
    v.emptyUnions = (v.parts.map emptyUnions).sum + if v.isEmptyUnion then 1 else 0 := by
  unfold emptyUnions
  rw [preorder_eq, List.countP_cons, List.countP_flatMap]
  rfl

/-- What a node holds meets the demand that the node meets. -/
theorem Meets.part {d : Demand} {v part : Visit} (h : v.Meets d) (hpart : part ∈ v.parts) :
    part.Meets d := by
  have hshape : ∀ {type : Node}, d.Shape type → part ∈ shapeParts type → part.Meets d := by
    intro type htype hmem
    unfold shapeParts at hmem
    split at hmem
    · obtain ⟨node, hnode, rfl⟩ := List.mem_map.mp hmem
      exact (Demand.fields_iff d _).mp htype node hnode
    · cases hmem
  unfold parts at hpart
  split at hpart
  · exact hshape h.2 hpart
  · obtain rfl := List.mem_singleton.mp hpart
    exact h.2
  · obtain ⟨node, hnode, rfl⟩ := List.mem_map.mp hpart
    exact (Demand.items_iff d _).mp h.2.2 node hnode
  · exact hshape h hpart
  · cases hpart

end Visit

/-! ### Filling in -/

namespace TypeScript

/-- `Fills filler n s t`: the text `t` is `s` with the filler put in at `n` places. -/
inductive Fills (filler : String) : ℕ → String → String → Prop
  | same (s : String) : Fills filler 0 s s
  | hole : Fills filler 1 "" filler
  | append {m n s t u v} (h : Fills filler m s t) (h' : Fills filler n u v) :
    Fills filler (m + n) (s ++ u) (t ++ v)

namespace Fills

variable {filler s t : String} {n : ℕ}

/-- Each place makes a text longer by the filler. -/
theorem length_eq (h : Fills filler n s t) : t.length = s.length + n * filler.length := by
  induction h with
  | same s => simp
  | hole => simp
  | append _ _ ih ih' =>
    rw [String.length_append, String.length_append, ih, ih', Nat.add_mul]
    omega

/-- Without a place nothing is put in. -/
theorem eq_of_zero (h : Fills filler n s t) : n = 0 → s = t := by
  induction h with
  | same s => exact fun _ => rfl
  | hole => exact fun hone => absurd hone Nat.one_ne_zero
  | @append m n s t u v _ _ ih ih' =>
    intro hsum
    obtain ⟨hm, hn⟩ := Nat.add_eq_zero_iff.mp hsum
    rw [ih hm, ih' hn]

/-- **Texts with places are the same exactly if there are no places.** -/
theorem eq_iff (h : Fills filler n s t) (hfiller : filler ≠ "") : s = t ↔ n = 0 := by
  constructor
  · intro heq
    have hlength := h.length_eq
    have hpos : 0 < filler.length := by
      rw [Nat.pos_iff_ne_zero, ne_eq, String.length_eq_zero_iff]
      exact hfiller
    rw [heq] at hlength
    have hzero : n * filler.length = 0 := by omega
    exact (Nat.mul_eq_zero.mp hzero).resolve_right (Nat.ne_of_gt hpos)
  · exact h.eq_of_zero

theorem append_same (h : Fills filler n s t) (behind : String) :
    Fills filler n (s ++ behind) (t ++ behind) := h.append (.same behind)

theorem same_append (before : String) (h : Fills filler n s t) :
    Fills filler n (before ++ s) (before ++ t) := by
  have hboth := (Fills.same before).append h
  rwa [Nat.zero_add] at hboth

/-- Texts between separators are filled one by one. -/
theorem intercalate {α : Type} {f g : α → String} {k : α → ℕ} (separator : String) :
    ∀ {as : List α}, (∀ a ∈ as, Fills filler (k a) (f a) (g a)) →
      Fills filler (as.map k).sum (String.intercalate separator (as.map f))
        (String.intercalate separator (as.map g))
  | [], _ => .same _
  | [a], h => by
    have ha := h a List.mem_cons_self
    simpa using ha
  | a :: b :: as, h => by
    have htail : ∀ c ∈ b :: as, Fills filler (k c) (f c) (g c) :=
      fun c hmem => h c (List.mem_cons_of_mem a hmem)
    have hrest := intercalate separator htail
    have ha := ((h a List.mem_cons_self).append_same separator).append hrest
    simp only [List.map_cons, List.sum_cons, String.intercalate_cons_cons] at ha ⊢
    exact ha

/-- A union is filled member by member, and one without members in its place. -/
theorem unionOr {α : Type} {f g : α → String} {k : α → ℕ} {as : List α}
    (h : ∀ a ∈ as, Fills filler (k a) (f a) (g a)) :
    Fills filler ((as.map k).sum + if as.isEmpty then 1 else 0)
      (TypeScript.unionOr "" (as.map f)) (TypeScript.unionOr filler (as.map g)) := by
  cases as with
  | nil => exact .hole
  | cons a as => exact intercalate " | " h

/-- A union of the same members. -/
theorem unionOr_same (filler : String) (types : List String) :
    Fills filler (if types.isEmpty then 1 else 0) (TypeScript.unionOr "" types)
      (TypeScript.unionOr filler types) := by
  cases types with
  | nil => exact .hole
  | cons type types => exact .same _

theorem parenthesized (h : Fills filler n s t) :
    Fills filler n (TypeScript.parenthesized s) (TypeScript.parenthesized t) :=
  (h.same_append "(").append_same ")"

theorem memberLine (head : Head) (h : Fills filler n s t) :
    Fills filler n (TypeScript.memberLine head (.str s)) (TypeScript.memberLine head (.str t)) :=
  (h.same_append _).append_same _

end Fills
end TypeScript

namespace Visit

variable {filler : String}

/-- The lines of a shape are filled field by field. -/
theorem shapeExpr_fills (type : Node)
    (h : ∀ part ∈ shapeParts type,
      Fills filler part.emptyUnions (part.expr "") (part.expr filler)) :
    Fills filler ((shapeParts type).map emptyUnions).sum (shapeExpr "" type)
      (shapeExpr filler type) := by
  unfold shapeParts at h ⊢
  split
  · rename_i nodes
    have hlines : ∀ node ∈ nodes, Fills filler (Visit.mk .field node).emptyUnions
        (lineExpr "" node) (lineExpr filler node) := by
      intro node hmem
      have hnode := h ⟨.field, node⟩ (List.mem_map_of_mem hmem)
      cases node with
      | field head kind => exact hnode.memberLine head
      | _ => exact hnode
    have hall := Fills.intercalate "\n" hlines
    rw [List.map_map, shapeExpr, shapeExpr, fieldExprs_eq_map, fieldExprs_eq_map]
    exact (hall.same_append _).append_same _
  · rename_i hno
    have hnone : ∀ filler, shapeExpr filler type = "" := by
      intro filler
      unfold shapeExpr
      split
      · exact absurd rfl (hno _)
      · rfl
    rw [hnone, hnone]
    exact .same ""

/-- **What is printed with a filler** is what is printed without one, with the filler put
in once for each union without members. -/
theorem expr_fills (v : Visit) : Fills filler v.emptyUnions (v.expr "") (v.expr filler) := by
  induction v using Visit.induction with
  | step v ih =>
    obtain ⟨position, node⟩ := v
    rw [emptyUnions_eq]
    cases position with
    | field =>
      cases node with
      | field head kind =>
        cases kind with
        | nestedPolymorphic typeNames =>
          have hunion := Fills.unionOr_same filler (textsIn typeNames)
          simpa [parts, isEmptyUnion, expr, kindExpr] using hunion
        | enum options =>
          have hunion := Fills.unionOr_same filler ((textsIn options).map literal)
          simpa [parts, isEmptyUnion, expr, kindExpr] using hunion
        | nestedUnnamed type =>
          simpa [parts, isEmptyUnion, expr, kindExpr] using shapeExpr_fills type ih
        | list item =>
          have hitem := (ih ⟨.item, item⟩ List.mem_cons_self).append_same "[]"
          simpa [parts, isEmptyUnion, expr, kindExpr] using hitem
        | listPolymorphic items =>
          rw [parts_listPolymorphic] at ih ⊢
          have hitems := Fills.unionOr fun node hmem =>
            ih ⟨.item, node⟩ (List.mem_map_of_mem hmem)
          have hlist := hitems.parenthesized.append_same "[]"
          simpa [isEmptyUnion, expr, kindExpr, itemGroupExprs_eq_map, Function.comp_def]
            using hlist
        | _ => rw [expr, expr, kindExpr, kindExpr]; exact .same _
      | _ => exact .same ""
    | item =>
      cases node with
      | item kind =>
        cases kind with
        | enum options =>
          have hunion := Fills.unionOr_same filler ((textsIn options).map literal)
          simpa [parts, isEmptyUnion, expr, itemExpr, itemKindExpr] using hunion.parenthesized
        | nestedUnnamed type =>
          simpa [parts, isEmptyUnion, expr, itemExpr, itemKindExpr] using shapeExpr_fills type ih
        | _ => rw [expr, expr, itemExpr, itemExpr, itemKindExpr, itemKindExpr]; exact .same _
      | _ => exact .same ""

end Visit

/-! ### What is rendered -/

namespace TypeScript

theorem asText_eq_ok {v : Json} {s : String} (h : asText v = .ok s) : s = v.text := by
  cases v with
  | str t => exact (Except.ok.inj h).symm
  | _ => cases h

theorem literalOf_eq_ok {v : Json} {s : String} (h : literalOf v = .ok s) : s = literal v.text := by
  cases v with
  | str t => exact (Except.ok.inj h).symm
  | _ => cases h

theorem unionOf_eq_ok {v : Json} {s : String} (h : unionOf v = .ok s) : s = union (textsIn v) := by
  obtain ⟨texts, htexts, rfl⟩ := map_eq_ok.mp h
  unfold textsOf at htexts
  unfold textsIn
  cases hvs : v.elements? with
  | none => simp [hvs] at htexts
  | some vs =>
    rw [hvs] at htexts
    have hall : texts.map id = vs.map Json.text :=
      map_eq_map_of_mapM htexts fun _ _ _ => asText_eq_ok
    rw [Option.getD_some, ← hall, List.map_id]

theorem literalsOf_eq_ok {v : Json} {literals : List String} (h : literalsOf v = .ok literals) :
    literals = (textsIn v).map literal := by
  unfold literalsOf at h
  unfold textsIn
  cases hvs : v.elements? with
  | none => simp [hvs] at h
  | some vs =>
    rw [hvs] at h
    have hall : literals.map id = vs.map (literal ∘ Json.text) :=
      map_eq_map_of_mapM h fun _ _ _ => literalOf_eq_ok
    rw [Option.getD_some, List.map_map, ← hall, List.map_id]

theorem listType_eq_ok {type : Json} {s : String} (h : listType type = .ok s) :
    s = type.text ++ "[]" := by
  obtain ⟨t, ht, rfl⟩ := map_eq_ok.mp h
  rw [asText_eq_ok ht]

end TypeScript

namespace Visit

/-- A shape is rendered line by line. -/
theorem shapeType_eq_ok {nodes : List Node} {s : String}
    (h : shapeType (.shape (.group nodes)) = .ok s) :
    ∃ lines, nodes.mapM fieldLine = .ok lines ∧ objectType lines = s := by
  rwa [shapeType, fieldLines, fieldLinesOf_eq_mapM, map_eq_ok] at h

/-- A field that has a line has a type expression. -/
theorem rendered_of_fieldLine {node : Node} {line : String} (h : fieldLine node = .ok line) :
    ∃ type, (Visit.mk .field node).rendered = .ok type := by
  obtain ⟨head, kind, type, rfl, htype, -⟩ := fieldLine_eq_ok.mp h
  exact ⟨type, htype⟩

theorem rendered_of_shapeType {type : Node} {s : String} (hplaced : wellPlaced.Shape type)
    (h : shapeType type = .ok s) : ∀ part ∈ shapeParts type, ∃ t, part.rendered = .ok t := by
  intro part hpart
  unfold shapeParts at hpart
  split at hpart
  · obtain ⟨lines, hlines, -⟩ := shapeType_eq_ok h
    obtain ⟨node, hnode, rfl⟩ := List.mem_map.mp hpart
    obtain ⟨line, -, hline⟩ := exists_mem_of_mapM hlines node hnode
    exact rendered_of_fieldLine hline
  · cases hpart

/-- **If a node is rendered, so is what it holds.** -/
theorem rendered_part {v part : Visit} {type : Json} (hplaced : v.Meets wellPlaced)
    (h : v.rendered = .ok type) (hpart : part ∈ v.parts) : ∃ t, part.rendered = .ok t := by
  unfold parts at hpart
  split at hpart
  · obtain ⟨s, hs, -⟩ := map_eq_ok.mp h
    exact rendered_of_shapeType hplaced.2 hs part hpart
  · obtain rfl := List.mem_singleton.mp hpart
    obtain ⟨t, ht, -⟩ := bind_eq_ok.mp h
    exact ⟨t, ht⟩
  · obtain ⟨node, hnode, rfl⟩ := List.mem_map.mp hpart
    obtain ⟨types, htypes, -⟩ := bind_eq_ok.mp h
    rw [itemTypes, itemTypesOf_eq_mapM] at htypes
    obtain ⟨t, -, ht⟩ := exists_mem_of_mapM htypes node hnode
    exact ⟨t, ht⟩
  · obtain ⟨s, hs, -⟩ := map_eq_ok.mp h
    exact rendered_of_shapeType hplaced hs part hpart
  · cases hpart

theorem text_of_shapeType {type : Node} {s : String} (hplaced : wellPlaced.Shape type)
    (ih : ∀ part ∈ shapeParts type, ∀ t, part.rendered = .ok t → t.text = part.expr "")
    (h : shapeType type = .ok s) : s = shapeExpr "" type := by
  cases type with
  | shape fields =>
    cases fields with
    | group nodes =>
      obtain ⟨lines, hlines, rfl⟩ := shapeType_eq_ok h
      have hall : lines.map id = nodes.map (lineExpr "") := by
        refine map_eq_map_of_mapM hlines fun node hnode line hline => ?_
        obtain ⟨head, kind, t, rfl, ht, rfl⟩ := fieldLine_eq_ok.mp hline
        have htext : t.text = kindExpr "" kind :=
          ih ⟨.field, .field head kind⟩ (List.mem_map_of_mem hnode) t ht
        rw [lineExpr, ← htext]
        rfl
      rw [shapeExpr, fieldExprs_eq_map, ← hall, List.map_id]
    | _ => exact hplaced.elim
  | _ => exact hplaced.elim

/-- **What is rendered for a node** is its type expression without a filler. -/
theorem text_of_rendered (v : Visit) : v.Meets wellPlaced → ∀ type, v.rendered = .ok type →
    type.text = v.expr "" := by
  induction v using Visit.induction with
  | step v ih =>
    intro hplaced type h
    have hparts : ∀ part ∈ v.parts, ∀ t, part.rendered = .ok t → t.text = part.expr "" :=
      fun part hpart => ih part hpart (hplaced.part hpart)
    obtain ⟨position, node⟩ := v
    cases position with
    | field =>
      cases node with
      | field head kind =>
        cases kind with
        | bare => exact hplaced.2.elim
        | nested typeName =>
          obtain rfl := Except.ok.inj h
          rfl
        | nestedPolymorphic typeNames =>
          obtain ⟨s, hs, rfl⟩ := map_eq_ok.mp h
          rw [unionOf_eq_ok hs, expr, kindExpr, unionOr_empty, Json.text]
        | nestedUnnamed shape =>
          obtain ⟨s, hs, rfl⟩ := map_eq_ok.mp h
          exact text_of_shapeType hplaced.2 hparts hs
        | list item =>
          obtain ⟨t, ht, h⟩ := bind_eq_ok.mp h
          obtain ⟨s, hs, rfl⟩ := map_eq_ok.mp h
          have hitem : t.text = itemExpr "" item := hparts ⟨.item, item⟩ List.mem_cons_self t ht
          rw [listType_eq_ok hs, hitem, expr, kindExpr, Json.text]
        | listPolymorphic items =>
          cases items with
          | group nodes =>
            obtain ⟨types, htypes, h⟩ := bind_eq_ok.mp h
            obtain ⟨s, hs, rfl⟩ := map_eq_ok.mp h
            obtain ⟨u, hu, rfl⟩ := map_eq_ok.mp hs
            rw [itemTypes, itemTypesOf_eq_mapM] at htypes
            have hitems : ∀ node ∈ nodes, ∀ t, itemType node = .ok t →
                t.text = itemExpr "" node :=
              fun node hmem => hparts ⟨.item, node⟩ (List.mem_map_of_mem hmem)
            have hexprs : types.map Json.text = nodes.map (itemExpr "") :=
              map_eq_map_of_mapM htypes hitems
            rw [unionOf_eq_ok hu, textsIn, Json.elements?, Option.getD_some, hexprs, expr,
              kindExpr, unionOr_empty, itemGroupExprs, itemExprs_eq_map, Json.text]
          | _ => exact hplaced.2.elim
        | enum options =>
          obtain ⟨literals, hliterals, rfl⟩ := map_eq_ok.mp h
          rw [literalsOf_eq_ok hliterals, expr, kindExpr, unionOr_empty, Json.text]
        | _ =>
          obtain rfl := Except.ok.inj h
          rfl
      | _ => exact hplaced.elim
    | item =>
      cases node with
      | item kind =>
        cases kind with
        | enum options =>
          obtain ⟨literals, hliterals, rfl⟩ := map_eq_ok.mp h
          rw [literalsOf_eq_ok hliterals, expr, itemExpr, itemKindExpr, unionOr_empty, Json.text]
        | nestedUnnamed shape =>
          obtain ⟨s, hs, rfl⟩ := map_eq_ok.mp h
          exact text_of_shapeType hplaced hparts hs
        | _ =>
          obtain rfl := Except.ok.inj h
          rfl
      | _ => exact hplaced.elim

end Visit

/-! ### Nothing but parentheses and brackets -/

namespace TypeScript

/-- A text in which there is nothing but parentheses and brackets, if anything. -/
def IsBlank (text : String) : Prop := ∀ c ∈ text.toList, c ∈ ['(', ')', '[', ']']

instance (text : String) : Decidable (IsBlank text) :=
  List.decidableBAll (· ∈ ['(', ')', '[', ']']) text.toList

theorem isBlank_append {s t : String} : IsBlank (s ++ t) ↔ IsBlank s ∧ IsBlank t := by
  unfold IsBlank
  rw [String.toList_append, List.forall_mem_append]

theorem isBlank_parenthesized {s : String} : IsBlank (parenthesized s) ↔ IsBlank s := by
  have hopen : IsBlank "(" := by decide
  have hclose : IsBlank ")" := by decide
  unfold parenthesized
  simp [isBlank_append, hopen, hclose]

theorem isBlank_brackets {s : String} : IsBlank (s ++ "[]") ↔ IsBlank s := by
  have hbrackets : IsBlank "[]" := by decide
  simp [isBlank_append, hbrackets]

theorem IsName.not_isBlank {s : String} (h : IsName s) : ¬ IsBlank s := by
  intro hblank
  obtain ⟨c, hc⟩ := List.exists_mem_of_ne_nil s.toList h.1
  have hchar : isNameChar c = true := h.2 c hc
  have hmem := hblank c hc
  simp only [List.mem_cons, List.not_mem_nil, or_false] at hmem
  rcases hmem with rfl | rfl | rfl | rfl <;> exact absurd hchar (by decide)

theorem not_isBlank_literal (s : String) : ¬ IsBlank (literal s) := by
  intro hblank
  have hquote : '\x27' ∈ (literal s).toList := by
    rw [literal, String.toList_ofList]
    exact List.mem_cons_self
  exact absurd (hblank _ hquote) (by decide)

theorem not_isBlank_objectType (lines : List String) : ¬ IsBlank (objectType lines) := by
  intro hblank
  have hopen : ¬ IsBlank "\x7b\n" := by decide
  unfold objectType at hblank
  rw [isBlank_append, isBlank_append] at hblank
  exact hopen hblank.1.1

/-- A union filled with the type without values says something if its members do. -/
theorem not_isBlank_unionOr {types : List String} (h : ∀ type ∈ types, ¬ IsBlank type) :
    ¬ IsBlank (unionOr never types) := by
  cases types with
  | nil => decide
  | cons type types =>
    have htype : ¬ IsBlank type := h type List.mem_cons_self
    rw [unionOr_cons, union]
    cases types with
    | nil => rwa [String.intercalate_singleton]
    | cons next types =>
      rw [String.intercalate_cons_cons, isBlank_append, isBlank_append]
      exact fun hblank => htype hblank.1.1

/-- The names of nested types are names. -/
def namedTypes : Demand where
  typeName v := ∃ s, v = .str s ∧ IsName s
  typeNames v := ∀ s ∈ textsIn v, IsName s

end TypeScript

namespace Visit

/-- **With the type without values in its unions, a node never has a blank type
expression.** -/
theorem not_isBlank_expr (v : Visit) : v.Meets namedTypes → ¬ IsBlank (v.expr never) := by
  have hshape : ∀ {type : Node}, namedTypes.Shape type → ¬ IsBlank (shapeExpr never type) := by
    intro type htype
    cases type with
    | shape fields =>
      cases fields with
      | group nodes => exact not_isBlank_objectType _
      | _ => exact htype.elim
    | _ => exact htype.elim
  have hliterals : ∀ options, ¬ IsBlank (unionOr never ((textsIn options).map literal)) := by
    intro options
    refine not_isBlank_unionOr fun text hmem => ?_
    obtain ⟨s, -, rfl⟩ := List.mem_map.mp hmem
    exact not_isBlank_literal s
  induction v using Visit.induction with
  | step v ih =>
    intro hnamed
    have hparts : ∀ part ∈ v.parts, ¬ IsBlank (part.expr never) :=
      fun part hpart => ih part hpart (hnamed.part hpart)
    obtain ⟨position, node⟩ := v
    cases position with
    | field =>
      cases node with
      | field head kind =>
        cases kind with
        | bare => exact hnamed.2.elim
        | nested typeName =>
          obtain ⟨s, rfl, hs⟩ := hnamed.2
          exact hs.not_isBlank
        | nestedPolymorphic typeNames =>
          exact not_isBlank_unionOr fun s hmem => (hnamed.2 s hmem).not_isBlank
        | nestedUnnamed type => exact hshape hnamed.2
        | list item =>
          have hitem : ¬ IsBlank (itemExpr never item) := hparts ⟨.item, item⟩ List.mem_cons_self
          rwa [expr, kindExpr, isBlank_brackets]
        | listPolymorphic items =>
          cases items with
          | group nodes =>
            rw [expr, kindExpr, isBlank_brackets, isBlank_parenthesized, itemGroupExprs,
              itemExprs_eq_map]
            refine not_isBlank_unionOr fun text hmem => ?_
            obtain ⟨node, hnode, rfl⟩ := List.mem_map.mp hmem
            exact hparts ⟨.item, node⟩ (List.mem_map_of_mem hnode)
          | _ => exact hnamed.2.elim
        | enum options => exact hliterals options
        | _ => rw [expr, kindExpr]; decide
      | _ => exact hnamed.elim
    | item =>
      cases node with
      | item kind =>
        cases kind with
        | nested typeName =>
          obtain ⟨s, rfl, hs⟩ := hnamed
          exact hs.not_isBlank
        | enum options =>
          rw [expr, itemExpr, itemKindExpr, isBlank_parenthesized]
          exact hliterals options
        | nestedUnnamed type => exact hshape hnamed
        | _ => rw [expr, itemExpr, itemKindExpr]; decide
      | _ => exact hnamed.elim

/-- What is printed for a union without members: by itself nothing, in an item a pair of
parentheses, in a list a pair of parentheses and one of brackets. -/
theorem expr_of_isEmptyUnion {v : Visit} (h : v.isEmptyUnion = true) :
    (v.expr "", v.expr never) ∈
      [("", never), (parenthesized "", parenthesized never),
        (parenthesized "" ++ "[]", parenthesized never ++ "[]")] := by
  unfold isEmptyUnion at h
  split at h
  · rw [expr, expr, kindExpr, kindExpr, List.isEmpty_iff.mp h]
    decide
  · rename_i head items
    have hnone : ∀ filler, itemGroupExprs filler items = [] := by
      intro filler
      cases items with
      | group nodes =>
        have hnodes : nodes = [] := List.isEmpty_iff.mp h
        rw [hnodes]
        rfl
      | _ => rfl
    rw [expr, expr, kindExpr, kindExpr, hnone, hnone]
    decide
  · rw [expr, expr, kindExpr, kindExpr, List.isEmpty_iff.mp h]
    decide
  · rw [expr, expr, itemExpr, itemExpr, itemKindExpr, itemKindExpr, List.isEmpty_iff.mp h]
    decide
  · cases h

end Visit

namespace TypeScript

/-- How the unions of a node are printed: what is rendered for it is its type expression
with nothing where a union has no members, and the type without values put in at each of
these places is what was to be rendered. -/
structure UnionsPrinted (v : Visit) : Prop where
  rendered : ∃ type, v.rendered = .ok type ∧ type.text = v.expr ""
  filled : Fills never v.emptyUnions (v.expr "") (v.expr never)
  same_iff : v.expr "" = v.expr never ↔ v.emptyUnions = 0
  empty : v.isEmptyUnion = true → (v.expr "", v.expr never) ∈
    [("", never), (parenthesized "", parenthesized never),
      (parenthesized "" ++ "[]", parenthesized never ++ "[]")]
  notBlank : v.Meets namedTypes → ¬ IsBlank (v.expr never)

theorem UnionsPrinted.mk_of_rendered {v : Visit} {type : Json} (hplaced : v.Meets wellPlaced)
    (h : v.rendered = .ok type) : UnionsPrinted v where
  rendered := ⟨type, h, v.text_of_rendered hplaced type h⟩
  filled := v.expr_fills
  same_iff := v.expr_fills.eq_iff (by decide)
  empty := Visit.expr_of_isEmptyUnion
  notBlank := v.not_isBlank_expr

/-- If a node is rendered, the unions of every node in it are printed. -/
theorem unionsPrinted_preorder {v : Visit} {type : Json} (hplaced : v.Meets wellPlaced)
    (h : v.rendered = .ok type) : ∀ w ∈ v.preorder, UnionsPrinted w := by
  have hparts : ∀ w : Visit, (w.Meets wellPlaced ∧ ∃ t, w.rendered = .ok t) →
      ∀ part ∈ w.parts, part.Meets wellPlaced ∧ ∃ t, part.rendered = .ok t := by
    intro w hw part hpart
    obtain ⟨t, ht⟩ := hw.2
    exact ⟨hw.1.part hpart, Visit.rendered_part hw.1 ht hpart⟩
  intro w hmem
  obtain ⟨hw, t, ht⟩ := Visit.forall_preorder hparts v ⟨hplaced, type, h⟩ w hmem
  exact .mk_of_rendered hw ht

/-- **Unions without members in the fields of a dump.** A field that is read from a dump is
rendered if its names and options are texts; and whenever it is rendered, in the field
itself and at any depth in it, a union is printed as its members and one without members
as nothing, where the unions of a module would have the type without values. -/
theorem fieldType_emptyUnions {place : Dump.Location} {raw : Json} {node : Node}
    (h : Dump.field place raw = .ok node) :
    (textual.Field node → ∃ type, fieldType node = .ok type) ∧
    (∀ type, fieldType node = .ok type →
      ∀ v ∈ (Visit.mk .field node).preorder, UnionsPrinted v) ∧
    ∀ types, unionText types = unionOr never types ∧
      unionOrNever (listing types) = .ok (unionOr never types) := by
  have hplaced : wellPlaced.Field node := (Dump.field_item_wellPlaced raw).1 place node h
  refine ⟨?_, ?_, fun types => ⟨(unionOr_never types).symm, unionOrNever_texts types⟩⟩
  · intro htext
    cases node with
    | field head kind =>
      obtain ⟨s, hs⟩ := kindType_text hplaced.2 htext.2
      exact ⟨.str s, hs⟩
    | _ => exact hplaced.elim
  · intro type htype
    exact unionsPrinted_preorder (v := ⟨.field, node⟩) hplaced htype

/-- A list of shapes with a choice of nothing and a list of no kinds of items. -/
def hollowField : Json :=
  .obj [("type", .str "list"), ("name", .str "slots"), ("isRequired", .bool true),
    ("of", .obj [("type", .str "nested_unnamed"), ("typeDef", .obj [("fieldDefs", .arr
      [.obj [("type", .str "enum"), ("name", .str "tone"), ("options", .arr []),
          ("isRequired", .bool true)],
        .obj [("type", .str "list_polymorphic"), ("name", .str "rows"), ("of", .arr []),
          ("isRequired", .bool true)]])])])]

/-- What is read of it. -/
def hollowNode : Node :=
  .field ⟨.str "slots", .bool true, .null⟩ (.list (.item (.nestedUnnamed (.shape (.group
    [.field ⟨.str "tone", .bool true, .null⟩ (.enum (.arr [])),
      .field ⟨.str "rows", .bool true, .null⟩ (.listPolymorphic (.group []))])))))

theorem hollowField_printed :
    Dump.field ⟨.documents, "Post", []⟩ hollowField = .ok hollowNode ∧
      fieldType hollowNode = .ok (.str "\x7b\n  tone: \n  rows: ()[]\n\x7d[]") ∧
      UnionsPrinted ⟨.field, hollowNode⟩ ∧ (Visit.mk .field hollowNode).emptyUnions = 2 := by
  have hread : Dump.field ⟨.documents, "Post", []⟩ hollowField = .ok hollowNode := by rfl
  have hprint : fieldType hollowNode = .ok (.str "\x7b\n  tone: \n  rows: ()[]\n\x7d[]") := by rfl
  refine ⟨hread, hprint, ?_, ?_⟩
  · exact (fieldType_emptyUnions hread).2.1 _ hprint _ (Visit.self_mem_preorder _)
  · simp [Visit.emptyUnions, hollowNode, Visit.preorder_eq, Visit.parts, Visit.shapeParts,
      Visit.isEmptyUnion, textsIn, groupMembers, Json.elements?]

/-- A field with a choice of nothing. -/
def idleField : Json :=
  .obj [("name", .str "k"), ("type", .str "enum"), ("options", .arr []), ("isRequired", .bool true)]

/-- What is read of it. -/
def idleNode : Node := .field ⟨.str "k", .bool true, .null⟩ (.enum (.arr []))

/-- A choice of nothing is read, and nothing is printed for it. -/
theorem idleField_unprinted :
    Dump.field ⟨.documents, "Post", []⟩ idleField = .ok idleNode ∧
      (Visit.mk .field idleNode).isEmptyUnion = true ∧
      fieldType idleNode = .ok (.str "") ∧ fieldType idleNode ≠ .ok (.str never) := by
  have hprint : fieldType idleNode = .ok (.str "") := by rfl
  refine ⟨by rfl, by rfl, hprint, fun hnever => ?_⟩
  have hsame : Json.str "" = Json.str never := Except.ok.inj (hprint.symm.trans hnever)
  exact absurd (Json.str.inj hsame) (by decide)

end TypeScript
end ContentDecl
