/-
# Edits that the reader of a dump does not see

Objects of a dump are read by key. Which keys are read depends on what an object stands
for and, of a field or an item, on its kind: besides its type and its head a field has
the one member that its kind needs. What stands under some of the keys is read further,
so that everything that is read can be reached from the dump, key by key and element by
element.

An edit changes one of the objects that are reached, wherever it is: its members come in
another order, or it has one more member, under a key that is not read. Names, options,
descriptions and extensions are values that are taken over as they are, so no edit goes
into them, and the entries of the two maps keep their order.

Two values are read alike if they give the same wherever they stand, be it a node or a
fault. Objects are read alike if the members under the keys that are read are read alike,
and this is so for an edited object, by induction on where the edit is.

Key definitions: `Standing`, `Role.keys`, `Standing.keys`, `Edit`, `ReadAlike`,
`AgreeOn`.
Key theorems: `readAlike_of_agree`, `Edit.readAlike`, `schema_edits`.
-/
import ContentDecl.Proofs.Dump.FirstDefect
import Mathlib.Data.List.Nodup
import Mathlib.Logic.Relation

namespace ContentDecl
namespace Dump

open Result

/-! ### Look-ups -/

section Lookup

variable {key other : String} {v v' : Json} {members members' before after : List (String × Json)}

/-- Where no two members have the same key, their order does not matter. -/
theorem lookup_perm (hperm : members.Perm members') :
    (members.map Prod.fst).Nodup → members.lookup key = members'.lookup key := by
  induction hperm with
  | nil => exact fun _ => rfl
  | cons entry _ ih =>
    intro hnodup
    rw [List.lookup_cons, List.lookup_cons, ih (List.nodup_cons.mp hnodup).2]
  | swap first second rest =>
    intro hnodup
    obtain ⟨name, v⟩ := first
    obtain ⟨name', v'⟩ := second
    have hne : name' ≠ name := fun heq => (List.nodup_cons.mp hnodup).1 (heq ▸ List.mem_cons_self)
    simp only [List.lookup_cons]
    cases hfirst : key == name with
    | false => rfl
    | true =>
      have hsecond : (key == name') = false := by
        rw [eq_of_beq hfirst]
        exact beq_false_of_ne hne.symm
      rw [hsecond]
  | trans hfirst _ ih ih' =>
    intro hnodup
    have hnodup' := (hfirst.map Prod.fst).nodup_iff.mp hnodup
    exact (ih hnodup).trans (ih' hnodup')

/-- A member that is put in does not hide the others. -/
theorem lookup_insert_ne (h : other ≠ key) :
    (before ++ (key, v) :: after).lookup other = (before ++ after).lookup other := by
  rw [List.lookup_append, List.lookup_append, lookup_cons_ne v after h.symm]

/-- What is found under the key of a member that is changed is what was found, unless it
is this member. -/
theorem lookup_replace (key : String) (before after : List (String × Json)) (v v' : Json) :
    (before ++ (key, v) :: after).lookup key = (before ++ (key, v') :: after).lookup key ∨
      (before ++ (key, v) :: after).lookup key = some v ∧
        (before ++ (key, v') :: after).lookup key = some v' := by
  rw [List.lookup_append, List.lookup_append, List.lookup_cons_self, List.lookup_cons_self]
  cases before.lookup key with
  | none => exact .inr ⟨rfl, rfl⟩
  | some w => exact .inl rfl

end Lookup

/-! ### Keys that are read -/

/-- What a value of a dump stands for: the dump, one of its two maps, a value that is
read in a role, or a list of such values. -/
inductive Standing where
  | dump
  | map (part : Section)
  | single (role : Role)
  | list (role : Role)
  deriving DecidableEq

/-- What the part of an object stands for, if it is read further. -/
def Part.inner? : Part → Option Standing
  | .shape => some (.single .shape)
  | .item => some (.single .item)
  | .items => some (.list .item)
  | _ => none

/-- The key of a part with what stands there. -/
def Part.keys (part : Part) : List (String × Option Standing) :=
  part.key?.toList.map (·, part.inner?)

/-- The keys of a type definition, each with what stands there if that is read further. -/
def definitionKeys : Section → List (String × Option Standing)
  | .documents =>
    [("name", none), ("description", none), ("extensions", none),
      ("fieldDefs", some (.list .field)), ("computedFields", some (.list .computed))]
  | .nested =>
    [("name", none), ("description", none), ("extensions", none),
      ("fieldDefs", some (.list .field))]

/-- The keys of a field of a kind: its type, its head and its part. Of a field of no known
kind only the type is read. -/
def fieldKeys : Option FieldTag → List (String × Option Standing)
  | some tag =>
    [("type", none), ("name", none), ("isRequired", none), ("description", none)] ++ tag.part.keys
  | none => [("type", none)]

/-- The keys of an item of a kind: its type and its part. -/
def itemKeys : Option ItemTag → List (String × Option Standing)
  | some tag => ("type", none) :: tag.part.keys
  | none => [("type", none)]

section Keys

variable (members : List (String × Json))

/-- The kind of field that an object is, if its type names one. -/
def fieldTag? : Option FieldTag :=
  match members.lookup "type" with
  | some (.str word) => FieldTag.ofText? word
  | _ => none

/-- The kind of item that an object is, if its type names one. -/
def itemTag? : Option ItemTag :=
  match members.lookup "type" with
  | some (.str word) => ItemTag.ofText? word
  | _ => none

/-- The keys that are read of an object in a role, each with what stands there if that is
read further. -/
def Role.keys : Role → List (String × Option Standing)
  | .definition part => definitionKeys part
  | .field => fieldKeys (fieldTag? members)
  | .item => itemKeys (itemTag? members)
  | .shape => [("fieldDefs", some (.list .field))]
  | .computed => [("name", none), ("type", none), ("description", none)]

/-- The keys that are read of an object. -/
def Standing.keys : Standing → List (String × Option Standing)
  | .dump =>
    [(sectionKey .documents, some (.map .documents)), (sectionKey .nested, some (.map .nested))]
  | .single role => role.keys members
  | .map _ => []
  | .list _ => []

end Keys

/-- Whether an object is read by key. A map is read entry by entry. -/
def Standing.isKeyed : Standing → Bool
  | .dump => true
  | .single _ => true
  | .map _ => false
  | .list _ => false

theorem type_mem_fieldKeys : ∀ tag? : Option FieldTag, ("type", none) ∈ fieldKeys tag?
  | none => List.mem_cons_self
  | some _ => List.mem_cons_self

theorem type_mem_itemKeys : ∀ tag? : Option ItemTag, ("type", none) ∈ itemKeys tag?
  | none => List.mem_cons_self
  | some _ => List.mem_cons_self

theorem nodup_definitionKeys (part : Section) : ((definitionKeys part).map Prod.fst).Nodup := by
  cases part <;> decide

theorem nodup_fieldKeys : ∀ tag? : Option FieldTag, ((fieldKeys tag?).map Prod.fst).Nodup
  | none => by decide
  | some tag => by cases tag <;> decide

theorem nodup_itemKeys : ∀ tag? : Option ItemTag, ((itemKeys tag?).map Prod.fst).Nodup
  | none => by decide
  | some tag => by cases tag <;> decide

/-- No key is read twice of an object. -/
theorem Standing.nodup_keys (members : List (String × Json)) :
    ∀ standing : Standing, ((standing.keys members).map Prod.fst).Nodup
  | .dump => by simp [keys, sectionKey]
  | .single (.definition part) => nodup_definitionKeys part
  | .single .field => nodup_fieldKeys (fieldTag? members)
  | .single .item => nodup_itemKeys (itemTag? members)
  | .single .shape => by simp [keys, Role.keys]
  | .single .computed => by simp [keys, Role.keys]
  | .map _ => .nil
  | .list _ => .nil

/-- A key says what stands there. -/
theorem Standing.inner_unique {standing : Standing} {members : List (String × Json)} {key : String}
    {inner? other? : Option Standing} (h : (key, inner?) ∈ standing.keys members)
    (h' : (key, other?) ∈ standing.keys members) : inner? = other? :=
  congrArg Prod.snd (List.inj_on_of_nodup_map (standing.nodup_keys members) h h' rfl)

/-! ### Edits -/

/-- One edit of a value: an object that is read by key has its members in another order
or one more member that is not read, or the edit is further inside, under a key that is
read, in an entry of a map, in an element of a list. An object that has its members in
another order has no key twice, as the objects of a dump have. -/
inductive Edit : Standing → Json → Json → Prop
  | reorder {standing : Standing} {members members' : List (String × Json)}
    (hkeyed : standing.isKeyed = true) (hnodup : (members.map Prod.fst).Nodup)
    (hperm : members.Perm members') : Edit standing (.obj members) (.obj members')
  | add {standing : Standing} {before after : List (String × Json)} {key : String} (v : Json)
    (hkeyed : standing.isKeyed = true)
    (hkey : key ∉ (standing.keys (before ++ after)).map Prod.fst) :
    Edit standing (.obj (before ++ after)) (.obj (before ++ (key, v) :: after))
  | member {standing inner : Standing} {before after : List (String × Json)} {key : String}
    {v v' : Json} (hkey : (key, some inner) ∈ standing.keys (before ++ (key, v) :: after))
    (h : Edit inner v v') :
    Edit standing (.obj (before ++ (key, v) :: after)) (.obj (before ++ (key, v') :: after))
  | entry {part : Section} {before after : List (String × Json)} {key : String} {v v' : Json}
    (h : Edit (.single (.definition part)) v v') :
    Edit (.map part) (.obj (before ++ (key, v) :: after)) (.obj (before ++ (key, v') :: after))
  | element {role : Role} {before after : List Json} {v v' : Json} (h : Edit (.single role) v v') :
    Edit (.list role) (.arr (before ++ v :: after)) (.arr (before ++ v' :: after))

/-! ### Values that are read alike -/

/-- Two values give the same where they stand. A list or a shape is read from the object
that it stands in. -/
def ReadAlike : Standing → Json → Json → Prop
  | .dump, v, v' => schema v = schema v'
  | .map part, v, v' => section? part [(sectionKey part, v)] = section? part [(sectionKey part, v')]
  | .single (.definition part), v, v' => ∀ key, definition part key v = definition part key v'
  | .single .field, v, v' => ∀ place, field place v = field place v'
  | .single .item, v, v' => ∀ place, item place v = item place v'
  | .single .shape, v, v' =>
    ∀ place, shapeIn place [("typeDef", v)] = shapeIn place [("typeDef", v')]
  | .single .computed, v, v' => ∀ place, computedField place v = computedField place v'
  | .list .field, v, v' =>
    ∀ place, fieldsIn place [("fieldDefs", v)] = fieldsIn place [("fieldDefs", v')]
  | .list .item, v, v' => ∀ place, itemsIn place [("of", v)] = itemsIn place [("of", v')]
  | .list .computed, v, v' => ∀ place,
    computedFields place [("computedFields", v)] = computedFields place [("computedFields", v')]
  | .list (.definition _), _, _ => True
  | .list .shape, _, _ => True

theorem ReadAlike.refl (standing : Standing) (v : Json) : ReadAlike standing v v := by
  cases standing with
  | dump => exact rfl
  | map part => exact rfl
  | single role => cases role <;> exact fun _ => rfl
  | list role =>
    cases role with
    | definition part => trivial
    | shape => trivial
    | _ => exact fun _ => rfl

/-- Two values under a key are read alike, or are the same if they are not read further. -/
def Alike : Option Standing → Json → Json → Prop
  | none => Eq
  | some inner => ReadAlike inner

theorem Alike.refl : ∀ (inner? : Option Standing) (v : Json), Alike inner? v v
  | none, _ => rfl
  | some inner, v => ReadAlike.refl inner v

/-- Two objects agree on a list of keys: what is found there is read alike. -/
def AgreeOn (keys : List (String × Option Standing)) (members members' : List (String × Json)) :
    Prop :=
  ∀ key inner?, (key, inner?) ∈ keys →
    Option.Rel (Alike inner?) (members.lookup key) (members'.lookup key)

theorem rel_of_lookup_eq {inner? : Option Standing} {found found' : Option Json}
    (h : found = found') : Option.Rel (Alike inner?) found found' := by
  subst h
  cases found with
  | none => exact .none
  | some v => exact .some (Alike.refl inner? v)

theorem eq_of_rel {found found' : Option Json} (h : Option.Rel (Alike none) found found') :
    found = found' := by
  cases h with
  | none => rfl
  | some h => exact congrArg some h

/-! ### Readers look members up -/

section Readers

variable {members members' : List (String × Json)}

/-- What is read of one member of an object is the same for two objects whose members
there are read alike. -/
theorem read_congr {α : Type} {read : List (String × Json) → α} {key : String}
    {r : Json → Json → Prop}
    (hread : ∀ {ms ms'}, ms.lookup key = ms'.lookup key → read ms = read ms')
    (hr : ∀ v v', r v v' → read [(key, v)] = read [(key, v')])
    (h : Option.Rel r (members.lookup key) (members'.lookup key)) :
    read members = read members' := by
  generalize hv : members.lookup key = found at h
  generalize hv' : members'.lookup key = found' at h
  cases h with
  | none => exact hread (hv.trans hv'.symm)
  | @some v v' halike =>
    calc read members = read [(key, v)] := hread (hv.trans List.lookup_cons_self.symm)
      _ = read [(key, v')] := hr v v' halike
      _ = read members' := hread (List.lookup_cons_self.trans hv'.symm)

theorem fieldsIn_congr (place : Location)
    (h : Option.Rel (Alike (some (.list .field))) (members.lookup "fieldDefs")
      (members'.lookup "fieldDefs")) :
    fieldsIn place members = fieldsIn place members' :=
  read_congr (fun heq => by rw [fieldsIn_eq, fieldsIn_eq, heq]) (fun _ _ halike => halike place) h

theorem itemsIn_congr (place : Location)
    (h : Option.Rel (Alike (some (.list .item))) (members.lookup "of") (members'.lookup "of")) :
    itemsIn place members = itemsIn place members' :=
  read_congr (fun heq => by rw [itemsIn_eq, itemsIn_eq, heq]) (fun _ _ halike => halike place) h

theorem shapeIn_congr (place : Location)
    (h : Option.Rel (Alike (some (.single .shape))) (members.lookup "typeDef")
      (members'.lookup "typeDef")) :
    shapeIn place members = shapeIn place members' :=
  read_congr (fun heq => by rw [shapeIn_eq, shapeIn_eq, heq]) (fun _ _ halike => halike place) h

theorem itemIn_congr (place : Location)
    (h : Option.Rel (Alike (some (.single .item))) (members.lookup "of") (members'.lookup "of")) :
    itemIn place members = itemIn place members' := by
  refine read_congr (fun heq => by rw [itemIn_eq, itemIn_eq, heq]) (fun v v' halike => ?_) h
  rw [itemIn_eq, itemIn_eq, List.lookup_cons_self, List.lookup_cons_self]
  exact halike (place.down .item)

theorem computedFields_congr (place : Location)
    (h : Option.Rel (Alike (some (.list .computed))) (members.lookup "computedFields")
      (members'.lookup "computedFields")) :
    computedFields place members = computedFields place members' :=
  read_congr (fun heq => by rw [computedFields, computedFields, Json.member, Json.member, heq])
    (fun _ _ halike => halike place) h

theorem section_congr (part : Section)
    (h : Option.Rel (Alike (some (.map part))) (members.lookup (sectionKey part))
      (members'.lookup (sectionKey part))) : section? part members = section? part members' :=
  read_congr (fun heq => by rw [section?, section?, Json.member, Json.member, heq])
    (fun _ _ halike => halike) h

/-- The part of an object is the same if it is read alike. -/
theorem readPart_congr (place : Location) {part : Part} (h : AgreeOn part.keys members members') :
    readPart place members part = readPart place members' part := by
  cases part with
  | nothing => rfl
  | value key =>
    have hkey := eq_of_rel (h key none List.mem_cons_self)
    rw [readPart, readPart, require, require, hkey]
  | elements key =>
    have hkey := eq_of_rel (h key none List.mem_cons_self)
    rw [readPart, readPart, require, require, hkey]
  | shape => exact shapeIn_congr place (h _ _ List.mem_cons_self)
  | item => exact itemIn_congr place (h _ _ List.mem_cons_self)
  | items =>
    rw [readPart, readPart, itemsIn_congr place (h _ _ List.mem_cons_self)]

theorem fieldTag_of_ok {place : Location} {tag : FieldTag} (h : fieldTag place members = .ok tag) :
    fieldTag? members = some tag := by
  rw [fieldTag?, fieldTag_eq_ok.mp h]
  exact FieldTag.ofText?_text tag

theorem itemTag_of_ok {place : Location} {tag : ItemTag} (h : itemTag place members = .ok tag) :
    itemTag? members = some tag := by
  rw [itemTag?, itemTag_eq_ok.mp h]
  exact ItemTag.ofText?_text tag

/-- A field is the same if the members that its kind reads are read alike. -/
theorem field_congr (place : Location) (h : AgreeOn (Role.field.keys members) members members') :
    field place (.obj members) = field place (.obj members') := by
  have htype : members.lookup "type" = members'.lookup "type" :=
    eq_of_rel (h "type" none (type_mem_fieldKeys _))
  have htag : fieldTag place members' = fieldTag place members := by
    rw [fieldTag, fieldTag, Json.member, Json.member, htype]
  rw [field_obj, field_obj, htag]
  cases hread : fieldTag place members with
  | error fault => rfl
  | ok tag =>
    rw [Role.keys, fieldTag_of_ok hread] at h
    have hhead : ∀ key ∈ ["name", "isRequired", "description"],
        members.lookup key = members'.lookup key :=
      fun key hmem => eq_of_rel (h key none
        (List.mem_append_left _ (List.mem_cons_of_mem _ (by simpa using hmem))))
    have hsame : head members = head members' := by
      unfold head Json.member
      rw [hhead "name" (by simp), hhead "isRequired" (by simp), hhead "description" (by simp)]
    have hheld := readPart_congr place fun key inner? hmem =>
      h key inner? (List.mem_append_right _ hmem)
    rw [ok_bind, ok_bind, hsame, hheld]

/-- An item is the same if the members that its kind reads are read alike. -/
theorem item_congr (place : Location) (h : AgreeOn (Role.item.keys members) members members') :
    item place (.obj members) = item place (.obj members') := by
  have htype : members.lookup "type" = members'.lookup "type" :=
    eq_of_rel (h "type" none (type_mem_itemKeys _))
  have htag : itemTag place members' = itemTag place members := by
    rw [itemTag, itemTag, Json.member, Json.member, htype]
  rw [item_obj, item_obj, htag]
  cases hread : itemTag place members with
  | error fault => rfl
  | ok tag =>
    rw [Role.keys, itemTag_of_ok hread] at h
    have hheld := readPart_congr place fun key inner? hmem =>
      h key inner? (List.mem_cons_of_mem _ hmem)
    rw [ok_bind, ok_bind, hheld]

/-- A type definition is the same if its members are read alike. -/
theorem definition_congr (part : Section) (key : String)
    (h : AgreeOn ((Role.definition part).keys members) members members') :
    definition part key (.obj members) = definition part key (.obj members') := by
  have hkeys : ∀ key ∈ ["name", "description", "extensions"],
      members.lookup key = members'.lookup key := by
    intro key hmem
    refine eq_of_rel (h key none ?_)
    cases part <;> simpa [Role.keys, definitionKeys] using hmem
  have hname : members.lookup "name" = members'.lookup "name" := hkeys "name" (by simp)
  have hfields : fieldsIn (.entry part key) members = fieldsIn (.entry part key) members' := by
    refine fieldsIn_congr _ (h "fieldDefs" _ ?_)
    cases part <;> simp [Role.keys, definitionKeys]
  have hcomputed : computedIn part (.entry part key) members
      = computedIn part (.entry part key) members' := by
    cases part with
    | nested => rfl
    | documents =>
      exact computedFields_congr _ (h "computedFields" _ (by simp [Role.keys, definitionKeys]))
  have hnode : ∀ found computed, definitionNode part key members found computed
      = definitionNode part key members' found computed := by
    intro found computed
    unfold definitionNode effectiveName Json.member
    rw [hname, hkeys "description" (by simp), hkeys "extensions" (by simp)]
  have heffective : effectiveName key members = effectiveName key members' := by
    rw [effectiveName, effectiveName, hname]
  simp only [definition_obj, hfields, hcomputed, hnode, heffective]

/-- A computed field is the same if its members are. -/
theorem computedField_congr (place : Location)
    (h : AgreeOn (Role.computed.keys members) members members') :
    computedField place (.obj members) = computedField place (.obj members') := by
  have hname := eq_of_rel (h "name" none (by simp [Role.keys]))
  have htype := eq_of_rel (h "type" none (by simp [Role.keys]))
  have hdescription := eq_of_rel (h "description" none (by simp [Role.keys]))
  simp only [computedField, Json.contains?, Json.member, hname, htype, hdescription]

/-- **Objects are read alike** if they agree on the keys that are read. -/
theorem readAlike_of_agree : ∀ {standing : Standing}, standing.isKeyed = true →
    AgreeOn (standing.keys members) members members' →
      ReadAlike standing (.obj members) (.obj members')
  | .dump, _, h => by
    have hdocuments := section_congr .documents (h _ _ List.mem_cons_self)
    have hnested := section_congr .nested (h _ _ (List.mem_cons_of_mem _ List.mem_cons_self))
    rw [ReadAlike, schema, schema, hdocuments, hnested]
  | .single (.definition part), _, h => fun key => definition_congr part key h
  | .single .field, _, h => fun place => field_congr place h
  | .single .item, _, h => fun place => item_congr place h
  | .single .shape, _, h => fun place => by
    have hfields := fieldsIn_congr (place.down .shape) (h _ _ List.mem_cons_self)
    rw [shapeIn_eq, shapeIn_eq, List.lookup_cons_self, List.lookup_cons_self]
    exact congrArg ((Node.shape ∘ Node.group) <$> ·) hfields
  | .single .computed, _, h => fun place => computedField_congr place h

end Readers

/-! ### What an edit leaves -/

section Inside

variable {v v' : Json}

/-- An element that is read alike gives the same nodes. -/
theorem readAll_congr {read : Location → Json → Except Fault Node} {step : Nat → Step}
    {place : Location} {after : List Json} (h : ∀ place, read place v = read place v') :
    ∀ (before : List Json) (index : Nat),
      readAll read step place index (before ++ v :: after)
        = readAll read step place index (before ++ v' :: after)
  | [], index => by
    rw [List.nil_append, List.nil_append, readAll, readAll, h]
  | raw :: before, index => by
    rw [List.cons_append, List.cons_append, readAll, readAll,
      readAll_congr h before (index + 1)]

/-- An entry that is read alike gives the same registry. -/
theorem entries_congr {part : Section} {key : String} {after : List (String × Json)}
    (h : ∀ key, definition part key v = definition part key v') :
    ∀ (before : List (String × Json)) (registry : Registry),
      entries part registry (before ++ (key, v) :: after)
        = entries part registry (before ++ (key, v') :: after)
  | [], registry => by
    rw [List.nil_append, List.nil_append, entries, entries, h]
  | (other, raw) :: before, registry => by
    rw [List.cons_append, List.cons_append, entries, entries]
    cases definition part other raw with
    | error fault => rfl
    | ok entry => exact entries_congr h before (registry.put entry.1 entry.2)

theorem fieldsIn_array (place : Location) (raws : List Json) :
    fieldsIn place [("fieldDefs", .arr raws)] = readAll field .field place 0 raws := by
  rw [fieldsIn_eq, List.lookup_cons_self, ← fieldsFrom_eq_readAll]

theorem itemsIn_array (place : Location) (raws : List Json) :
    itemsIn place [("of", .arr raws)] = readAll item .itemAt place 0 raws := by
  rw [itemsIn_eq, List.lookup_cons_self, ← itemsFrom_eq_readAll]

theorem computedFields_array (place : Location) (raws : List Json) :
    computedFields place [("computedFields", .arr raws)]
      = readAll computedField .computed place 0 raws := by
  rw [← computedFrom_eq_readAll]
  cases raws <;> rfl

theorem entries_eq_section (part : Section) (found : List (String × Json)) :
    entries part [] found = section? part [(sectionKey part, .obj found)] := by
  unfold section? Json.member
  rw [List.lookup_cons_self]
  cases found <;> rfl

/-- A list with an element that is read alike is read alike. -/
theorem readAlike_element {before after : List Json} : ∀ {role : Role},
    ReadAlike (.single role) v v' →
      ReadAlike (.list role) (.arr (before ++ v :: after)) (.arr (before ++ v' :: after))
  | .field, h => fun place => by
    rw [fieldsIn_array, fieldsIn_array, readAll_congr h before 0]
  | .item, h => fun place => by
    rw [itemsIn_array, itemsIn_array, readAll_congr h before 0]
  | .computed, h => fun place => by
    rw [computedFields_array, computedFields_array, readAll_congr h before 0]
  | .definition _, _ => trivial
  | .shape, _ => trivial

end Inside

/-- **One edit is not seen**: an edited value is read like the value as it was. -/
theorem Edit.readAlike {standing : Standing} {v v' : Json} (h : Edit standing v v') :
    ReadAlike standing v v' := by
  induction h with
  | reorder hkeyed hnodup hperm =>
    exact readAlike_of_agree hkeyed fun _ _ _ => rel_of_lookup_eq (lookup_perm hperm hnodup)
  | @add standing before after added v hkeyed hkey =>
    refine readAlike_of_agree hkeyed fun key inner? hmem => rel_of_lookup_eq ?_
    have hne : key ≠ added := by
      rintro rfl
      exact hkey (List.mem_map_of_mem hmem)
    exact (lookup_insert_ne hne).symm
  | @member standing inner before after key v v' hkey _ ih =>
    have hkeyed : standing.isKeyed = true := by
      cases standing with
      | dump => rfl
      | single role => rfl
      | map part => cases hkey
      | list role => cases hkey
    refine readAlike_of_agree hkeyed fun other inner? hmem => ?_
    by_cases hsame : other = key
    · subst hsame
      obtain rfl := Standing.inner_unique hkey hmem
      obtain heq | ⟨hv, hv'⟩ := lookup_replace other before after v v'
      · exact rel_of_lookup_eq heq
      · rw [hv, hv']
        exact .some ih
    · refine rel_of_lookup_eq ?_
      rw [lookup_insert_ne hsame, lookup_insert_ne hsame]
  | @entry part before after key v v' _ ih =>
    rw [ReadAlike, ← entries_eq_section, ← entries_eq_section]
    exact entries_congr ih before []
  | element _ ih => exact readAlike_element ih

/-- **The reader of a dump sees the keys that it reads and nothing else**: however many
objects of a dump have their members in another order, or members under keys that are not
read, the dump gives the same schema, or the same fault. -/
theorem schema_edits {data data' : Json} (h : Relation.ReflTransGen (Edit .dump) data data') :
    schema data' = schema data := by
  induction h with
  | refl => rfl
  | tail _ hedit ih => exact hedit.readAlike.symm.trans ih

/-- A dump of one document type with one field. -/
def dumpOf (raw : Json) : Json :=
  .obj [("documentTypeDefMap", .obj [("Post", .obj [("fieldDefs", .arr [raw])])])]

/-- An item of an unnamed shape with one field. -/
def shapeItemOf (raw : Json) : Json :=
  .obj [("type", .str "nested_unnamed"), ("typeDef", .obj [("fieldDefs", .arr [raw])])]

section Paths

variable {raw raw' : Json}

/-- An edit of the only field of a list is an edit of the list. -/
theorem Edit.onlyField (h : Edit (.single .field) raw raw') :
    Edit (.list .field) (.arr [raw]) (.arr [raw']) := @Edit.element .field [] [] raw raw' h

/-- An edit of the field is an edit of the dump. -/
theorem Edit.dumpOf (h : Edit (.single .field) raw raw') :
    Edit .dump (dumpOf raw) (dumpOf raw') := by
  have hdefinition : Edit (.single (.definition .documents)) (.obj [("fieldDefs", .arr [raw])])
      (.obj [("fieldDefs", .arr [raw'])]) :=
    @Edit.member _ _ [] [] "fieldDefs" _ _ (by simp [Standing.keys, Role.keys, definitionKeys])
      h.onlyField
  have hmap : Edit (.map .documents) (.obj [("Post", .obj [("fieldDefs", .arr [raw])])])
      (.obj [("Post", .obj [("fieldDefs", .arr [raw'])])]) :=
    @Edit.entry .documents [] [] "Post" _ _ hdefinition
  exact @Edit.member _ _ [] [] "documentTypeDefMap" _ _ List.mem_cons_self hmap

/-- An edit of the field is an edit of the item. -/
theorem Edit.shapeItemOf (h : Edit (.single .field) raw raw') :
    Edit (.single .item) (shapeItemOf raw) (shapeItemOf raw') := by
  have hshape : Edit (.single .shape) (.obj [("fieldDefs", .arr [raw])])
      (.obj [("fieldDefs", .arr [raw'])]) :=
    @Edit.member _ _ [] [] "fieldDefs" _ _ List.mem_cons_self h.onlyField
  have htypeDef : ("typeDef", some (.single .shape)) ∈ itemKeys (some .nestedUnnamed) := by decide
  exact @Edit.member _ _ [("type", .str "nested_unnamed")] [] "typeDef" _ _ htypeDef hshape

end Paths

/-- A list of shapes in which a nested field has no name of a type. -/
def sparseDump : Json :=
  dumpOf (.obj [("type", .str "list"), ("of", shapeItemOf (.obj [("type", .str "nested")]))])

/-- The same with the name of a document type in this field, and with the list in another
order. -/
def crowdedDump : Json :=
  dumpOf (.obj
    [("of", shapeItemOf (.obj [("documentTypeName", .str "Page"), ("type", .str "nested")])),
      ("type", .str "list")])

theorem crowdedDump_sameFault :
    Relation.ReflTransGen (Edit .dump) sparseDump crowdedDump ∧
      schema crowdedDump = schema sparseDump ∧
      schema sparseDump = .error (.defect
        ⟨.documents, "Post", [.field 0, .item, .shape, .field 0]⟩ (.missing "nestedTypeName")) := by
  have hadd : Edit (.single .field) (.obj [("type", .str "nested")])
      (.obj [("documentTypeName", .str "Page"), ("type", .str "nested")]) :=
    @Edit.add _ [] [("type", .str "nested")] "documentTypeName" _ rfl (by decide)
  have hof : ("of", some (.single .item)) ∈ fieldKeys (some .list) := by decide
  have hlist := @Edit.member (.single .field) _ [("type", .str "list")] [] "of" _ _ hof
    hadd.shapeItemOf
  have hswap := @Edit.reorder (.single .field)
    [("type", .str "list"),
      ("of", shapeItemOf (.obj [("documentTypeName", .str "Page"), ("type", .str "nested")]))]
    _ rfl (by decide) (.swap _ _ [])
  have hedits : Relation.ReflTransGen (Edit .dump) sparseDump crowdedDump :=
    (Relation.ReflTransGen.single hlist.dumpOf).tail hswap.dumpOf
  exact ⟨hedits, schema_edits hedits, by rfl⟩

end Dump
end ContentDecl
