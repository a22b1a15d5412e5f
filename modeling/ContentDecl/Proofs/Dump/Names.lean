/-
# The names under which definitions are found

An entry of a map is known by its name: its own, null included, or else its key in
the map. In the model that is read, the keys of a registry are the names of the
entries, each where it came first and as it was written there, and the definition
under a key is that of the last entry of this name. Nothing else of the dump counts:
neither the entries of the other map, nor the key of an entry that has a name of its
own.

The loop over the entries keeps `Indexed`, which says of the entries read so far what
the registry holds. That the key of an entry does not count rests on what is read
being the same at every place (`PlaceFree`): a place is only named where reading
stops.

Key definitions: `entryName`, `IsLast`, `Indexed`, `Keyed`, `RekeyedDump`.
Key theorems: `field_item_placeFree`, `entries_indexed`, `definition_rekeyed`,
`schema_keyed`.
-/
import ContentDecl.Proofs.Dump.Form
import ContentDecl.Proofs.Dump.Keys

namespace ContentDecl
namespace Dump

open Result

/-! ### Places -/

/-- What is read at one place is read at every other. -/
def PlaceFree {α : Type} (read : Location → Except Fault α) : Prop :=
  ∀ place other a, read place = .ok a → read other = .ok a

namespace PlaceFree

variable {α β : Type}

theorem const (x : Except Fault α) : PlaceFree fun _ => x := fun _ _ _ h => h

theorem error (fault : Location → Fault) :
    PlaceFree fun place => (.error (fault place) : Except Fault α) := nofun

theorem down {read : Location → Except Fault α} (h : PlaceFree read) (step : Step) :
    PlaceFree fun place => read (place.down step) :=
  fun place other a => h (place.down step) (other.down step) a

theorem bind {read : Location → Except Fault α} {next : α → Location → Except Fault β}
    (h : PlaceFree read) (hnext : ∀ a, PlaceFree (next a)) :
    PlaceFree fun place => read place >>= fun a => next a place := by
  intro place other b hb
  obtain ⟨a, ha, hb⟩ := bind_eq_ok.mp hb
  exact bind_eq_ok.mpr ⟨a, h place other a ha, hnext a place other b hb⟩

theorem map {read : Location → Except Fault α} (h : PlaceFree read) (f : α → β) :
    PlaceFree fun place => f <$> read place := by
  intro place other b hb
  obtain ⟨a, ha, rfl⟩ := map_eq_ok.mp hb
  exact map_eq_ok.mpr ⟨a, h place other a ha, rfl⟩

theorem readAll {read : Location → Json → Except Fault Node} (step : Nat → Step) :
    ∀ (index : Nat) {raws : List Json}, (∀ raw ∈ raws, PlaceFree fun place => read place raw) →
      PlaceFree fun place => readAll read step place index raws
  | _, [], _ => const _
  | index, raw :: rest, h => by
    have hraw := (h raw List.mem_cons_self).down (step index)
    have hrest : PlaceFree fun place => Dump.readAll read step place (index + 1) rest :=
      readAll step (index + 1) fun other hmem => h other (List.mem_cons_of_mem raw hmem)
    exact hraw.bind fun node => hrest.bind fun nodes => const _

end PlaceFree

section Inside

variable {members : List (String × Json)}

theorem require_placeFree (members : List (String × Json)) (key : String) :
    PlaceFree fun place => require place members key :=
  fun _ _ _ h => require_ok_iff.mpr (require_ok_iff.mp h)

theorem fieldsIn_placeFree
    (ih : ∀ raw : Json, sizeOf raw < sizeOf members → PlaceFree fun place => field place raw) :
    PlaceFree fun place => fieldsIn place members := by
  simp only [fieldsIn_eq, fieldsFrom_eq_readAll]
  cases hv : members.lookup "fieldDefs" with
  | none => exact .const _
  | some v =>
    cases v with
    | arr raws => exact .readAll .field 0 fun raw hmem => ih raw (sizeOf_element_lt hv hmem)
    | _ => exact .const _

theorem itemsIn_placeFree
    (ih : ∀ raw : Json, sizeOf raw < sizeOf members → PlaceFree fun place => item place raw) :
    PlaceFree fun place => itemsIn place members := by
  simp only [itemsIn_eq, itemsFrom_eq_readAll]
  cases hv : members.lookup "of" with
  | none => exact .error _
  | some v =>
    cases v with
    | arr raws => exact .readAll .itemAt 0 fun raw hmem => ih raw (sizeOf_element_lt hv hmem)
    | _ => exact .const _

theorem shapeIn_placeFree
    (ih : ∀ raw : Json, sizeOf raw < sizeOf members → PlaceFree fun place => field place raw) :
    PlaceFree fun place => shapeIn place members := by
  simp only [shapeIn_eq]
  cases hv : members.lookup "typeDef" with
  | none => exact .error _
  | some v =>
    cases v with
    | obj type =>
      have hlt := sizeOf_members_lt hv
      have hfields := fieldsIn_placeFree fun raw h => ih raw (Nat.lt_trans h hlt)
      exact (hfields.down .shape).map _
    | _ => exact .const _

theorem readPart_placeFree
    (ih : ∀ raw : Json, sizeOf raw < sizeOf members →
      (PlaceFree fun place => field place raw) ∧ (PlaceFree fun place => item place raw))
    (part : Part) : PlaceFree fun place => readPart place members part := by
  cases part with
  | nothing => exact .const _
  | value key => exact (require_placeFree members key).map _
  | elements key =>
    exact ((require_placeFree members key).bind fun v => .const (listOf v)).map _
  | shape => exact shapeIn_placeFree fun raw hlt => (ih raw hlt).1
  | item =>
    simp only [readPart, itemIn_eq]
    cases hv : members.lookup "of" with
    | none => exact .error _
    | some raw => exact (ih raw (sizeOf_lookup_lt hv)).2.down .item
  | items => exact (itemsIn_placeFree fun raw hlt => (ih raw hlt).2).map _

end Inside

/-- Fields and items are read alike at every place. -/
theorem field_item_placeFree (raw : Json) :
    (PlaceFree fun place => field place raw) ∧ (PlaceFree fun place => item place raw) := by
  induction raw using inside_induction with
  | other raw hobj =>
    simp only [field_of_ne_obj _ hobj, item_of_ne_obj _ hobj]
    exact ⟨.const _, .const _⟩
  | object members ih =>
    simp only [field_obj, item_obj]
    constructor
    · have htag : PlaceFree fun place => fieldTag place members :=
        fun _ _ _ h => fieldTag_eq_ok.mpr (fieldTag_eq_ok.mp h)
      exact htag.bind fun tag => (readPart_placeFree ih tag.part).map _
    · have htag : PlaceFree fun place => itemTag place members :=
        fun _ _ _ h => itemTag_eq_ok.mpr (itemTag_eq_ok.mp h)
      exact htag.bind fun tag => (readPart_placeFree ih tag.part).map _

theorem computedField_placeFree (raw : Json) : PlaceFree fun place => computedField place raw := by
  unfold computedField
  cases raw.contains? "name" with
  | none => exact .const _
  | some hasName =>
    cases raw.contains? "type" with
    | none => cases hasName <;> exact .error _
    | some hasType =>
      cases hasName with
      | false => exact .error _
      | true =>
        cases hasType with
        | false => exact .error _
        | true => exact .const _

theorem computedIn_placeFree (part : Section) (members : List (String × Json)) :
    PlaceFree fun place => computedIn part place members := by
  cases part with
  | nested => exact .const _
  | documents =>
    simp only [computedIn, computedFields]
    cases ((Json.member members "computedFields").orElse (.arr [])).elements? with
    | none => exact .const _
    | some raws =>
      simp only [computedFrom_eq_readAll]
      exact .readAll .computed 0 fun raw _ => computedField_placeFree raw

/-! ### Entries and their names -/

/-- The name of an entry of a map: its own, or else its key. -/
def entryName (entry : String × Json) : Json :=
  match entry.2 with
  | .obj members => effectiveName entry.1 members
  | _ => .str entry.1

/-- The entries of a map of a dump; a map that is absent has none. -/
def entriesOf (part : Section) (data : Json) : List (String × Json) :=
  match data with
  | .obj members =>
    match members.lookup (sectionKey part) with
    | some (.obj found) => found
    | _ => []
  | _ => []

variable {part : Section} {registry : Registry}

/-- The definition of an entry has the name of the entry, and is put under it. -/
theorem definition_name {entry : String × Json} {name : Json} {node : Node}
    (h : definition part entry.1 entry.2 = .ok (name, node)) :
    name = entryName entry ∧ name.isKey = true ∧ node.name? = some name := by
  obtain ⟨key, raw⟩ := entry
  cases raw with
  | obj members =>
    obtain ⟨found, -, computed, -, hkey, heq⟩ := definition_eq_ok.mp h
    obtain ⟨rfl, rfl⟩ := Prod.mk.inj heq
    refine ⟨rfl, hkey, ?_⟩
    cases part <;> rfl
  | _ => simp [definition] at h

/-- The maps of a dump that is read are read entry by entry. -/
theorem entries_of_schema {data : Json} {schema : Schema} (h : Dump.schema data = .ok schema)
    (part : Section) : entries part [] (entriesOf part data) = .ok (schema.registry part) := by
  cases data with
  | obj members =>
    have hsection : section? part members = .ok (schema.registry part) := by
      rw [Dump.schema] at h
      obtain ⟨documents, hdocuments, h⟩ := bind_eq_ok.mp h
      obtain ⟨nested, hnested, h⟩ := bind_eq_ok.mp h
      obtain rfl := pure_eq_ok.mp h
      cases part with
      | documents => exact hdocuments
      | nested => exact hnested
    rw [entriesOf]
    obtain ⟨hempty, hfalse⟩ | ⟨found, hread, hv⟩ | ⟨v, hfail, -⟩ := section_cases part members
    · rw [← hsection, hempty]
      cases hv : members.lookup (sectionKey part) with
      | none => rfl
      | some v =>
        cases v with
        | obj found =>
          obtain rfl : found = [] := by simpa [Json.isTrue] using hfalse _ hv
          rfl
        | _ => rfl
    · rw [hv, ← hread, hsection]
    · rw [hfail] at hsection
      cases hsection
  | _ => simp [Dump.schema] at h

/-! ### What the registry holds -/

/-- The definition of the last entry of a name. -/
def IsLast (part : Section) (found : List (String × Json)) (name : Json) (node : Node) : Prop :=
  ∃ before entry after, found = before ++ entry :: after ∧
    name.equals (entryName entry) = true ∧
    (∀ other ∈ after, name.equals (entryName other) = false) ∧
    definition part entry.1 entry.2 = .ok (entryName entry, node)

/-- What a registry holds when the entries of a list are read: the keys are their names,
and under each is the definition of the last one. -/
structure Indexed (part : Section) (found : List (String × Json)) (registry : Registry) : Prop where
  order : registry.keys = firstAppearances (found.map entryName)
  last : ∀ entry ∈ registry, IsLast part found entry.1 entry.2

theorem Indexed.nil (part : Section) : Indexed part [] [] := ⟨rfl, nofun⟩

/-- The keys are names. -/
theorem isName_of_order {found : List (String × Json)}
    (horder : registry.keys = firstAppearances (found.map entryName))
    (hnames : ∀ entry ∈ found, (entryName entry).IsName) : ∀ entry ∈ registry, entry.1.IsName := by
  intro entry hmem
  have hkey : entry.1 ∈ registry.keys := List.mem_map_of_mem hmem
  rw [horder] at hkey
  obtain ⟨other, hother, hname⟩ := List.mem_map.mp (firstAppearances_subset hkey)
  exact hname ▸ hnames other hother

theorem Indexed.distinct {found : List (String × Json)} (h : Indexed part found registry) :
    registry.keys.Pairwise fun key other => key.equals other = false := by
  rw [h.order]
  exact pairwise_firstAppearances _

/-- A key that equals a name is the only one. -/
theorem Indexed.one {found : List (String × Json)} (h : Indexed part found registry)
    (hkeys : ∀ entry ∈ registry, entry.1.IsName) (name : Json) :
    registry.Pairwise fun a b => a.1.equals name = true → b.1.equals name = false := by
  refine List.Pairwise.imp_of_mem ?_ (List.pairwise_map.mp h.distinct)
  intro a b ha hb hdiffer hequal
  rw [Json.equals_iff_identity (hkeys a ha)] at hequal
  rw [← Bool.not_eq_true, Json.equals_iff_identity (hkeys a ha)] at hdiffer
  rw [← Bool.not_eq_true, Json.equals_iff_identity (hkeys b hb)]
  exact fun hother => hdiffer (hequal.trans hother.symm)

/-- **One more entry is read.** A definition of a new name comes last; another takes the
place of the one of its name. -/
theorem Indexed.put {found : List (String × Json)} (h : Indexed part found registry)
    (hnames : ∀ entry ∈ found, (entryName entry).IsName) {entry : String × Json} {node : Node}
    (hname : (entryName entry).IsName)
    (hread : definition part entry.1 entry.2 = .ok (entryName entry, node)) :
    Indexed part (found ++ [entry]) (registry.put (entryName entry) node) := by
  have hkeys := isName_of_order h.order hnames
  have hagrees : ∀ v : Json, v.IsName → v.agrees (entryName entry) = v.equals (entryName entry) :=
    fun v hv => hv.equals_eq_agrees.symm
  have horder : (registry.put (entryName entry) node).keys
      = firstAppearances ((found ++ [entry]).map entryName) := by
    have hany : registry.keys.any (·.agrees (entryName entry))
        = (found.map entryName).any (·.equals (entryName entry)) := by
      rw [← any_firstAppearances _ (List.forall_mem_map.mpr hnames), ← h.order, Bool.eq_iff_iff,
        List.any_eq_true, List.any_eq_true]
      refine exists_congr fun key => and_congr_right fun hkey => ?_
      obtain ⟨other, hother, rfl⟩ := List.mem_map.mp hkey
      rw [hagrees _ (hkeys other hother)]
    rw [List.map_append, List.map_singleton, firstAppearances_concat, ← h.order, ← hany,
      Registry.keys_put]
    split
    · rw [List.append_nil]
    · rfl
  refine ⟨horder, fun other hmem => ?_⟩
  have hother : other.1.IsName := by
    refine isName_of_order horder ?_ other hmem
    rw [List.forall_mem_append, List.forall_mem_singleton]
    exact ⟨hnames, hname⟩
  have hone : registry.Pairwise fun a b =>
      a.1.agrees (entryName entry) = true → b.1.agrees (entryName entry) = false := by
    refine List.Pairwise.imp_of_mem ?_ (h.one hkeys (entryName entry))
    intro a b ha hb
    rw [hagrees _ (hkeys a ha), hagrees _ (hkeys b hb)]
    exact id
  have hself : (entryName entry).agrees (entryName entry) = true := by
    rw [hagrees _ hname]
    exact Json.equals_self hname
  obtain ⟨hequal, hnode⟩ | ⟨hdiffers, hmem⟩ := Registry.mem_put hself hone hmem
  · rw [hagrees _ hother] at hequal
    exact ⟨found, entry, [], rfl, hequal, nofun, hnode ▸ hread⟩
  · rw [hagrees _ hother] at hdiffers
    obtain ⟨before, last, after, rfl, hlast, hafter, hdefinition⟩ := h.last other hmem
    refine ⟨before, last, after ++ [entry], by simp, hlast, ?_, hdefinition⟩
    rw [List.forall_mem_append, List.forall_mem_singleton]
    exact ⟨hafter, hdiffers⟩

/-- **All entries are read.** -/
theorem entries_indexed : ∀ (before found : List (String × Json)) {registry result : Registry},
    Indexed part before registry → (∀ entry ∈ before ++ found, (entryName entry).isNaN = false) →
    (∀ entry ∈ before, (entryName entry).IsName) →
    entries part registry found = .ok result → Indexed part (before ++ found) result
  | before, [], registry, result, h, _, _, hread => by
    obtain rfl := Except.ok.inj hread
    rwa [List.append_nil]
  | before, entry :: found, registry, result, h, hnan, hnames, hread => by
    obtain ⟨⟨name, node⟩, hdefinition, hread⟩ := bind_eq_ok.mp hread
    obtain ⟨rfl, hkey, -⟩ := definition_name hdefinition
    have hname : (entryName entry).IsName := ⟨hkey, hnan entry (by simp)⟩
    rw [List.append_cons] at hnan ⊢
    refine entries_indexed (before ++ [entry]) found (h.put hnames hname hdefinition) hnan ?_ hread
    rw [List.forall_mem_append, List.forall_mem_singleton]
    exact ⟨hnames, hname⟩

/-! ### Keys that do not count -/

/-- An entry under another key, if it has a name of its own. -/
inductive RekeyedEntry : String × Json → String × Json → Prop
  | same (entry : String × Json) : RekeyedEntry entry entry
  | named (key other : String) {members : List (String × Json)} {name : Json}
    (h : members.lookup "name" = some name) : RekeyedEntry (key, .obj members) (other, .obj members)

/-- A map in which entries with names of their own are under other keys. -/
inductive RekeyedMap : Option Json → Option Json → Prop
  | same (v? : Option Json) : RekeyedMap v? v?
  | map {found others : List (String × Json)} (h : List.Forall₂ RekeyedEntry found others) :
    RekeyedMap (some (.obj found)) (some (.obj others))

/-- A dump in whose maps entries with names of their own are under other keys. -/
def RekeyedDump (data other : Json) : Prop :=
  ∃ members others, data = .obj members ∧ other = .obj others ∧
    ∀ part, RekeyedMap (members.lookup (sectionKey part)) (others.lookup (sectionKey part))

/-- A definition with a name of its own is the same under every key. -/
theorem definition_rekeyed {entry other : String × Json} (h : RekeyedEntry entry other)
    {result : Json × Node} (hread : definition part entry.1 entry.2 = .ok result) :
    definition part other.1 other.2 = .ok result := by
  cases h with
  | same => exact hread
  | @named key other members name hname =>
    have heffective : ∀ key, effectiveName key members = name := fun key => by
      rw [effectiveName, hname, Option.getD_some]
    obtain ⟨found, hfound, computed, hcomputed, hkey, rfl⟩ := definition_eq_ok.mp hread
    have hfound := fieldsIn_placeFree (fun raw (_ : sizeOf raw < sizeOf members) =>
      (field_item_placeFree raw).1) _ (.entry part other) found hfound
    have hcomputed := computedIn_placeFree part members _ (.entry part other) computed hcomputed
    rw [heffective] at hkey
    refine definition_eq_ok.mpr ⟨found, hfound, computed, hcomputed, ?_, ?_⟩
    · rwa [heffective]
    · simp only [definitionNode, heffective]

theorem entries_rekeyed {found others : List (String × Json)}
    (h : List.Forall₂ RekeyedEntry found others) {result : Registry} :
    ∀ {registry : Registry}, entries part registry found = .ok result →
      entries part registry others = .ok result := by
  induction h with
  | nil => exact id
  | cons hentry _ ih =>
    intro registry hread
    obtain ⟨⟨name, node⟩, hdefinition, hread⟩ := bind_eq_ok.mp hread
    exact bind_eq_ok.mpr ⟨(name, node), definition_rekeyed hentry hdefinition, ih hread⟩

theorem section_rekeyed {members others : List (String × Json)}
    (h : RekeyedMap (members.lookup (sectionKey part)) (others.lookup (sectionKey part)))
    (hread : section? part members = .ok registry) : section? part others = .ok registry := by
  have hobj : ∀ found, (Json.obj found).orElse (.obj []) = .obj found := fun found => by
    cases found <;> rfl
  rw [section?, Json.member] at hread ⊢
  generalize members.lookup (sectionKey part) = v? at h hread
  generalize others.lookup (sectionKey part) = w? at h ⊢
  cases h with
  | same => exact hread
  | map hentries =>
    rw [Option.getD_some, hobj] at hread ⊢
    exact entries_rekeyed hentries hread

/-! ### The model of a dump -/

/-- The definitions of a map by name. -/
structure Keyed (part : Section) (found : List (String × Json)) (registry : Registry) : Prop where
  /-- No two keys are equal. -/
  distinct : registry.keys.Pairwise fun key other => key.equals other = false
  /-- Each definition stands under its name. -/
  named : ∀ entry ∈ registry, ∃ name, entry.2.name? = some name ∧ entry.1.equals name = true
  /-- The keys are the names, each where it came first. -/
  order : registry.keys = firstAppearances (found.map entryName)
  /-- Each definition is the last one of its name. -/
  last : ∀ entry ∈ registry, IsLast part found entry.1 entry.2

theorem Indexed.keyed {found : List (String × Json)} (h : Indexed part found registry) :
    Keyed part found registry where
  distinct := h.distinct
  named entry hmem := by
    obtain ⟨-, other, -, -, hequal, -, hread⟩ := h.last entry hmem
    obtain ⟨-, -, hname⟩ := definition_name hread
    exact ⟨entryName other, hname, hequal⟩
  order := h.order
  last := h.last

/-- **The definitions of a model stand under their names**, each name where it came first
and with the last definition of this name. A map of the dump decides alone what is read
of it, and the key of an entry with a name of its own decides nothing. -/
theorem schema_keyed {data : Json} {schema : Schema} (h : Dump.schema data = .ok schema)
    (hnan : ∀ part, ∀ entry ∈ entriesOf part data, (entryName entry).isNaN = false) :
    (∀ part, Keyed part (entriesOf part data) (schema.registry part)) ∧
    (∀ part other schema', Dump.schema other = .ok schema' →
      entriesOf part other = entriesOf part data → schema'.registry part = schema.registry part) ∧
    ∀ other, RekeyedDump data other → Dump.schema other = .ok schema := by
  refine ⟨fun part => ?_, fun part other schema' hother hentries => ?_, fun other hr => ?_⟩
  · have hread := entries_of_schema h part
    exact (entries_indexed [] (entriesOf part data) (.nil part) (hnan part) nofun hread).keyed
  · have hread := entries_of_schema hother part
    rw [hentries, entries_of_schema h part] at hread
    exact (Except.ok.inj hread).symm
  · obtain ⟨members, others, rfl, rfl, hmaps⟩ := hr
    rw [Dump.schema] at h ⊢
    obtain ⟨documents, hdocuments, h⟩ := bind_eq_ok.mp h
    obtain ⟨nested, hnested, h⟩ := bind_eq_ok.mp h
    rw [section_rekeyed (hmaps .documents) hdocuments, section_rekeyed (hmaps .nested) hnested]
    exact h

/-- A dump with three names for one document type, a name that is null and a key for a
name. -/
def namesDump (key : String) : Json :=
  .obj [("documentTypeDefMap", .obj
    [(key, .obj [("name", .int 1)]), ("b", .obj []), ("c", .obj [("name", .null)]),
      ("d", .obj [("name", .bool true), ("description", .str "last")])])]

/-- The model of this dump. -/
def namesSchema : Schema :=
  { documents :=
      [(.int 1, .document (.bool true) (.group []) (.group []) (.str "last") (.obj [])),
        (.str "b", .document (.str "b") (.group []) (.group []) .null (.obj [])),
        (.null, .document .null (.group []) (.group []) .null (.obj []))] }

theorem namesDump_keyed : Dump.schema (namesDump "a") = .ok namesSchema ∧
    (∀ part, ∀ entry ∈ entriesOf part (namesDump "a"), (entryName entry).isNaN = false) ∧
    Keyed .documents (entriesOf .documents (namesDump "a")) namesSchema.documents ∧
    RekeyedDump (namesDump "a") (namesDump "z") ∧ Dump.schema (namesDump "z") = .ok namesSchema := by
  have hread : Dump.schema (namesDump "a") = .ok namesSchema := by with_unfolding_all rfl
  have hnan : ∀ part, ∀ entry ∈ entriesOf part (namesDump "a"), (entryName entry).isNaN = false := by
    intro part
    cases part with
    | documents =>
      simp [entriesOf, namesDump, sectionKey, entryName, effectiveName, Json.isNaN]
    | nested => simp [entriesOf, namesDump, sectionKey, List.lookup_cons]
  have hrekeyed : RekeyedDump (namesDump "a") (namesDump "z") := by
    refine ⟨_, _, rfl, rfl, fun part => ?_⟩
    cases part with
    | documents => exact .map (.cons (.named "a" "z" rfl) (List.forall₂_same.mpr fun _ _ => .same _))
    | nested => exact .same none
  obtain ⟨hkeyed, -, hsame⟩ := schema_keyed hread hnan
  exact ⟨hread, hnan, hkeyed .documents, hrekeyed, hsame _ hrekeyed⟩

end Dump
end ContentDecl
