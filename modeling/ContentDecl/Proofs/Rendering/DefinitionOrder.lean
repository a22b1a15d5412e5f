/-
# The order of definitions does not matter

If no two definitions of a section have the same name, the order of the names is
one order, whatever order the definitions were given in and whatever keys they
were given under. So schemas with the same definitions have the same module, or
stop with the same fault, and two dumps that differ in the order of the entries of
their maps are read as such schemas.

Key definitions: `DistinctNames`, `SameDefinitions`, `Dump.HasDistinctEntries`,
`Dump.Reordered`.
Key theorems: `moduleOf_sameDefinitions`, `Dump.schema_reordered`,
`moduleOf_reordered`.
-/
import ContentDecl.Proofs.Dump.RoundTrip
import ContentDecl.Proofs.Rendering.NameOrder
import Mathlib.Data.List.Perm.Basic

namespace ContentDecl
namespace TypeScript

open Result

variable {nodes others : List Node}

/-- The names of definitions are texts, and no two are the same. -/
structure DistinctNames (nodes : List Node) : Prop where
  isText : ∀ node ∈ nodes, HasTextName node
  nodup : (nodes.map Node.nameText).Nodup

theorem DistinctNames.nil : DistinctNames [] := ⟨by simp, .nil⟩

theorem DistinctNames.of_names {names : List String}
    (h : nodes.map Node.name? = names.map fun name => some (.str name)) (hnodup : names.Nodup) :
    DistinctNames nodes where
  isText node hmem := by
    have hname : node.name? ∈ nodes.map Node.name? := List.mem_map_of_mem hmem
    rw [h] at hname
    obtain ⟨name, -, hname⟩ := List.mem_map.mp hname
    exact ⟨name, hname.symm⟩
  nodup := by
    have htexts : nodes.map Node.nameText = names := by
      calc nodes.map Node.nameText
          = (nodes.map Node.name?).map fun name => (name.getD .null).text := by
            rw [List.map_map]
            rfl
        _ = names.map fun name => (Json.str name).text := by
            rw [h, List.map_map]
            rfl
        _ = names := List.map_id names
    rwa [htexts]

theorem DistinctNames.of_perm (h : DistinctNames nodes) (hp : others.Perm nodes) :
    DistinctNames others where
  isText node hmem := h.isText node (hp.mem_iff.mp hmem)
  nodup := (hp.map Node.nameText).nodup_iff.mpr h.nodup

/-- Of definitions with distinct names, those of one name are the same in every
order. -/
theorem DistinctNames.filter_perm (h : DistinctNames nodes) (hp : others.Perm nodes)
    (name : String) :
    others.filter (·.nameText == name) = nodes.filter (·.nameText == name) := by
  have hfilter := hp.filter (·.nameText == name)
  have hname : ∀ node ∈ nodes.filter (·.nameText == name), node.nameText = name := by
    intro node hmem
    simpa using (List.mem_filter.mp hmem).2
  have hnodup : ((nodes.filter (·.nameText == name)).map Node.nameText).Nodup :=
    h.nodup.sublist (List.filter_sublist.map Node.nameText)
  -- There is at most one definition of the name, so there is nothing to reorder.
  revert hfilter hname hnodup
  cases nodes.filter (·.nameText == name) with
  | nil => exact fun hfilter _ _ => hfilter.eq_nil
  | cons a rest =>
    cases rest with
    | nil => exact fun hfilter _ _ => hfilter.eq_singleton
    | cons b rest =>
      intro _ hname hnodup
      have hab : a.nameText = b.nameText := (hname a (by simp)).trans (hname b (by simp)).symm
      simp [hab] at hnodup

/-- Definitions with distinct names have one order of the names, whatever order they
are given in. -/
theorem InNameOrder.of_perm {sorted : List Node} (h : InNameOrder nodes sorted)
    (hd : DistinctNames nodes) (hp : others.Perm nodes) : InNameOrder others sorted where
  perm := h.perm.trans hp.symm
  ascending := h.ascending
  stable name := (h.stable name).trans (hd.filter_perm hp name).symm

/-- Two schemas with the same definitions in each section, in any order and under any
keys. -/
def SameDefinitions (schema other : Schema) : Prop :=
  ∀ part, (other.registry part).definitions.Perm (schema.registry part).definitions

/-- **Schemas with the same definitions of distinct names have the same module**, or
stop with the same fault. -/
theorem moduleOf_sameDefinitions {schema other : Schema}
    (hd : ∀ part, DistinctNames (schema.registry part).definitions)
    (h : SameDefinitions schema other) (options : Options) :
    moduleOf options other = moduleOf options schema := by
  obtain ⟨sorted, hsorted, hmodule⟩ := moduleOf_texts fun part => (hd part).isText
  obtain ⟨sorted', hsorted', hmodule'⟩ :=
    moduleOf_texts fun part => ((hd part).of_perm (h part)).isText
  have hsame : sorted' = sorted := funext fun part =>
    (hsorted' part).unique ((hsorted part).of_perm (hd part) (h part))
  rw [hmodule options, hmodule' options, hsame]

end TypeScript

namespace Dump

open Result
open TypeScript (DistinctNames SameDefinitions HasTextName)

/-! ### Dumps in another order -/

/-- A member of a dump with the entries of its map in another order, if it is one. -/
inductive ReorderedMember : String × Json → String × Json → Prop
  | same (member : String × Json) : ReorderedMember member member
  | map (part : Section) {found others : List (String × Json)} (h : others.Perm found) :
    ReorderedMember (sectionKey part, .obj found) (sectionKey part, .obj others)

/-- A dump with the entries of its maps in another order. -/
inductive Reordered : Json → Json → Prop
  | intro {members others : List (String × Json)}
    (h : List.Forall₂ ReorderedMember members others) : Reordered (.obj members) (.obj others)

/-- An entry of a map whose definition has a text for its name: its own name or, if it
has none, its key. -/
def IsNamed (entry : String × Json) (name : String) : Prop :=
  ∃ members, entry.2 = .obj members ∧ effectiveName entry.1 members = .str name

/-- The entries of a map have texts for names, and no two the same. -/
def DistinctEntries (found : List (String × Json)) : Prop :=
  ∃ names : List String, names.Nodup ∧ List.Forall₂ IsNamed found names

/-- A dump whose maps have entries of distinct names. -/
def HasDistinctEntries (data : Json) : Prop :=
  ∀ part members found, data = .obj members →
    members.lookup (sectionKey part) = some (.obj found) → DistinctEntries found

theorem DistinctEntries.of_perm {found others : List (String × Json)} (h : DistinctEntries found)
    (hp : others.Perm found) : DistinctEntries others := by
  obtain ⟨names, hnodup, hnamed⟩ := h
  obtain ⟨names', hnamed', hperm⟩ := List.perm_comp_forall₂ hp hnamed
  exact ⟨names', hperm.nodup_iff.mpr hnodup, hnamed'⟩

/-- A map has the same entries in a reordered dump. -/
theorem lookup_reordered (part : Section) {members others : List (String × Json)}
    (h : List.Forall₂ ReorderedMember members others) :
    others.lookup (sectionKey part) = members.lookup (sectionKey part) ∨
      ∃ found found', members.lookup (sectionKey part) = some (.obj found) ∧
        others.lookup (sectionKey part) = some (.obj found') ∧ found'.Perm found := by
  induction h with
  | nil => exact .inl rfl
  | cons hmember hrest ih =>
    cases hmember with
    | same member =>
      rw [List.lookup_cons, List.lookup_cons]
      split
      · exact .inl rfl
      · exact ih
    | map other hp =>
      rw [List.lookup_cons, List.lookup_cons]
      split
      · exact .inr ⟨_, _, rfl, rfl, hp⟩
      · exact ih

/-! ### Entries of distinct names -/

/-- The definition of an entry has the name of the entry. -/
theorem definition_named {part : Section} {entry : String × Json} {name : String}
    (hn : IsNamed entry name) {result : Json × Node}
    (h : definition part entry.1 entry.2 = .ok result) :
    result.1 = .str name ∧ result.2.name? = some (.str name) := by
  obtain ⟨members, hobj, hname⟩ := hn
  rw [hobj] at h
  obtain ⟨found, -, computed, -, -, rfl⟩ := definition_eq_ok.mp h
  refine ⟨hname, ?_⟩
  cases part <;> simp [definitionNode, Node.name?, hname]

/-- Definitions that are read have the names of their entries. -/
theorem definitions_named {part : Section} {found : List (String × Json)} {names : List String}
    {results : List (Json × Node)} (hnamed : List.Forall₂ IsNamed found names)
    (h : found.mapM (fun entry => definition part entry.1 entry.2) = .ok results) :
    (Registry.definitions results).map Node.name? = names.map fun name => some (.str name) := by
  induction hnamed generalizing results with
  | nil =>
    obtain rfl := pure_eq_ok.mp h
    rfl
  | cons hname hnames ih =>
    obtain ⟨result, hread, rest, hrest, rfl⟩ := mapM_cons_eq_ok.mp h
    have htail := ih hrest
    rw [Registry.definitions] at htail ⊢
    rw [List.map_cons, List.map_cons, List.map_cons, htail, (definition_named hname hread).2]

/-- Entries of distinct names are read one by one, and each is put behind those before. -/
theorem entries_distinct (part : Section) {found : List (String × Json)} {names : List String}
    {registry : Registry} (hnamed : List.Forall₂ IsNamed found names) (hnodup : names.Nodup)
    (hnew : ∀ entry ∈ registry, ∀ name ∈ names, entry.1.agrees (.str name) = false) :
    entries part registry found = (registry ++ ·) <$>
      found.mapM fun entry => definition part entry.1 entry.2 := by
  induction hnamed generalizing registry with
  | nil =>
    rw [entries, List.mapM_nil]
    exact congrArg Except.ok (List.append_nil registry).symm
  | @cons entry name rest names hname hnames ih =>
    obtain ⟨hfresh, hnodup⟩ := List.nodup_cons.mp hnodup
    rw [entries, List.mapM_cons]
    cases hread : definition part entry.1 entry.2 with
    | error fault => rfl
    | ok result =>
      obtain ⟨key, node⟩ := result
      obtain rfl : key = .str name := (definition_named hname hread).1
      have hput : registry.put (.str name) node = registry ++ [(.str name, node)] :=
        Registry.put_of_new fun other hmem => hnew other hmem name List.mem_cons_self
      have hnew' : ∀ other ∈ registry ++ [(.str name, node)], ∀ otherName ∈ names,
          other.1.agrees (.str otherName) = false := by
        intro other hmem otherName hother
        rcases List.mem_append.mp hmem with hmem | hmem
        · exact hnew other hmem otherName (List.mem_cons_of_mem name hother)
        · have hne : name ≠ otherName := fun heq => hfresh (heq ▸ hother)
          obtain rfl := List.mem_singleton.mp hmem
          simpa [Json.agrees] using hne
      simp only [ok_bind, hput]
      rw [ih hnodup hnew']
      cases rest.mapM fun entry => definition part entry.1 entry.2 with
      | error fault => rfl
      | ok results => exact congrArg Except.ok (List.append_assoc registry _ results)

/-- Reordered entries of distinct names give the same definitions, which have distinct
names. -/
theorem entries_perm {part : Section} {found others : List (String × Json)} {registry : Registry}
    (hd : DistinctEntries found) (hp : others.Perm found)
    (h : entries part [] found = .ok registry) :
    DistinctNames registry.definitions ∧
      ∃ registry', entries part [] others = .ok registry' ∧ registry'.Perm registry := by
  obtain ⟨names', hnodup', hnamed'⟩ := hd.of_perm hp
  obtain ⟨names, hnodup, hnamed⟩ := hd
  rw [entries_distinct part hnamed hnodup (by simp)] at h
  obtain ⟨results, hresults, rfl⟩ := map_eq_ok.mp h
  rw [List.nil_append]
  obtain ⟨results', hread', hperm⟩ := List.perm_comp_forall₂ hp (mapM_eq_ok_iff.mp hresults)
  have hothers : entries part [] others = .ok results' := by
    rw [entries_distinct part hnamed' hnodup' (by simp), mapM_eq_ok_iff.mpr hread']
    exact congrArg Except.ok (List.nil_append results')
  exact ⟨.of_names (definitions_named hnamed hresults) hnodup, results', hothers, hperm⟩

/-- A map of a reordered dump is read as the same definitions. -/
theorem section_reordered {part : Section} {members others : List (String × Json)}
    {registry : Registry} (hd : ∀ found, members.lookup (sectionKey part) = some (.obj found) →
      DistinctEntries found)
    (hr : List.Forall₂ ReorderedMember members others)
    (h : section? part members = .ok registry) :
    DistinctNames registry.definitions ∧
      ∃ registry', section? part others = .ok registry' ∧ registry'.Perm registry := by
  have hsection : ∀ found, (Json.obj found).orElse (.obj []) = .obj found := by
    intro found
    cases found <;> rfl
  obtain hsame | ⟨found, found', hfound, hfound', hp⟩ := lookup_reordered part hr
  · have hread : section? part others = .ok registry := by
      rw [← h, section?, section?, Json.member, Json.member, hsame]
    refine ⟨?_, registry, hread, .refl registry⟩
    obtain ⟨hempty, -⟩ | ⟨found, hentries, hv⟩ | ⟨v, hfail, -⟩ := section_cases part members
    · obtain rfl := Except.ok.inj (hempty.symm.trans h)
      exact .nil
    · exact (entries_perm (hd found hv) (.refl found) (hentries.symm.trans h)).1
    · rw [hfail] at h
      exact absurd h (by simp)
  · rw [section?, Json.member, hfound, Option.getD_some, hsection] at h
    rw [section?, Json.member, hfound', Option.getD_some, hsection]
    exact entries_perm (hd found hfound) hp h

/-- **A dump in another order is read as a schema with the same definitions.** -/
theorem schema_reordered {data other : Json} {schema : Schema}
    (h : Dump.schema data = .ok schema) (hd : HasDistinctEntries data) (hr : Reordered data other) :
    (∀ part, DistinctNames (schema.registry part).definitions) ∧
      ∃ schema', Dump.schema other = .ok schema' ∧ SameDefinitions schema schema' := by
  cases hr with
  | intro hmembers =>
    rw [Dump.schema] at h
    obtain ⟨documents, hdocuments, h⟩ := bind_eq_ok.mp h
    obtain ⟨nested, hnested, h⟩ := bind_eq_ok.mp h
    obtain rfl := pure_eq_ok.mp h
    obtain ⟨hdd, documents', hdocuments', hdp⟩ :=
      section_reordered (fun found => hd .documents _ found rfl) hmembers hdocuments
    obtain ⟨hdn, nested', hnested', hnp⟩ :=
      section_reordered (fun found => hd .nested _ found rfl) hmembers hnested
    refine ⟨fun part => ?_, { documents := documents', nested := nested' }, ?_, fun part => ?_⟩
    · cases part with
      | documents => exact hdd
      | nested => exact hdn
    · rw [Dump.schema, hdocuments', ok_bind, hnested', ok_bind]
      rfl
    · cases part with
      | documents => exact hdp.map (·.2)
      | nested => exact hnp.map (·.2)

end Dump

namespace TypeScript

/-- **The order of definitions does not matter.** Schemas whose definitions are the same
and have distinct names have the same module or stop with the same fault, in whatever
order and under whatever keys the definitions are. So a dump that is read can be
reordered. -/
theorem moduleOf_reordered (options : Options) :
    (∀ schema other : Schema, (∀ part, DistinctNames (schema.registry part).definitions) →
      SameDefinitions schema other → moduleOf options other = moduleOf options schema) ∧
    ∀ (data other : Json) (schema : Schema), Dump.schema data = .ok schema →
      Dump.HasDistinctEntries data → Dump.Reordered data other →
      ∃ schema', Dump.schema other = .ok schema' ∧
        moduleOf options schema' = moduleOf options schema := by
  constructor
  · intro schema other hd h
    exact moduleOf_sameDefinitions hd h options
  · intro data other schema h hd hr
    obtain ⟨hnames, schema', hread, hsame⟩ := Dump.schema_reordered h hd hr
    exact ⟨schema', hread, moduleOf_sameDefinitions hnames hsame options⟩

/-- The entries of a dump with two document types, one of which is not rendered. -/
def postEntry : String × Json := ("a", .obj [("name", .str "Post")])

def authorEntry : String × Json :=
  ("b", .obj [("name", .str "Author"),
    ("computedFields", .arr [.obj [("name", .str "type"), ("type", .str "string")]])])

def authorsDump (entries : List (String × Json)) : Json :=
  .obj [("documentTypeDefMap", .obj entries)]

/-- The two document types, under keys that are given. -/
def postDefinition (key : String) : Json × Node :=
  (.str key, .document (.str "Post") (.group []) (.group []) .null (.obj []))

def authorDefinition (key : String) : Json × Node :=
  (.str key, .document (.str "Author") (.group [])
    (.group [.computed (.str "type") (.str "string") .null]) .null (.obj []))

def authorsSchema : Schema := { documents := [postDefinition "Post", authorDefinition "Author"] }

/-- The same document types in another order and under other keys. -/
def turnedSchema : Schema := { documents := [authorDefinition "2", postDefinition "1"] }

theorem authorsSchema_reordered :
    ((∀ part, DistinctNames (authorsSchema.registry part).definitions) ∧
      SameDefinitions authorsSchema turnedSchema ∧
      moduleOf {} turnedSchema = moduleOf {} authorsSchema) ∧
    Dump.schema (authorsDump [postEntry, authorEntry]) = .ok authorsSchema ∧
      Dump.HasDistinctEntries (authorsDump [postEntry, authorEntry]) ∧
      Dump.Reordered (authorsDump [postEntry, authorEntry]) (authorsDump [authorEntry, postEntry]) ∧
      ∃ schema', Dump.schema (authorsDump [authorEntry, postEntry]) = .ok schema' ∧
        moduleOf {} schema' = moduleOf {} authorsSchema := by
  have hnames : ∀ part, DistinctNames (authorsSchema.registry part).definitions := by
    intro part
    cases part with
    | documents => exact @DistinctNames.of_names _ ["Post", "Author"] rfl (by decide)
    | nested => exact @DistinctNames.of_names _ [] rfl .nil
  have hsame : SameDefinitions authorsSchema turnedSchema := by
    intro part
    cases part with
    | documents => exact .swap _ _ []
    | nested => exact .nil
  have hread : Dump.schema (authorsDump [postEntry, authorEntry]) = .ok authorsSchema := by
    with_unfolding_all rfl
  have hentries : Dump.HasDistinctEntries (authorsDump [postEntry, authorEntry]) := by
    rintro part members found ⟨⟩ hfound
    cases part with
    | documents =>
      obtain rfl : [postEntry, authorEntry] = found := by simpa [Dump.sectionKey] using hfound
      exact ⟨["Post", "Author"], by decide, .cons ⟨_, rfl, rfl⟩ (.cons ⟨_, rfl, rfl⟩ .nil)⟩
    | nested => simp [Dump.sectionKey, List.lookup_cons] at hfound
  have hturned : Dump.Reordered (authorsDump [postEntry, authorEntry])
      (authorsDump [authorEntry, postEntry]) :=
    .intro (.cons (.map .documents (.swap _ _ [])) .nil)
  obtain ⟨hschemas, hdumps⟩ := moduleOf_reordered {}
  exact ⟨⟨hnames, hsame, hschemas _ _ hnames hsame⟩, hread, hentries, hturned,
    hdumps _ _ _ hread hentries hturned⟩

end TypeScript
end ContentDecl
