/-
# A module is rendered from its declarations

Rendering a module sorts the definitions of each registry by name, declares them
one after the other and lists their names. Sorting loses no definition and adds
none, so whatever the order is, a module that is rendered declares every
definition, and a module that is not stops with a fault of a declaration or with
one of the names: of a definition without a name, of names that cannot be sorted
or of a name that is no text.

Key definitions: `inOrder`.
Key theorems: `declareAll_eq_ok`, `moduleOf_failsOnly`, `declaration_of_moduleOf`.
-/
import ContentDecl.Proofs.Rendering.FieldType
import ContentDecl.TypeScript.Module

namespace ContentDecl
namespace TypeScript

open Result

variable {options : Options} {nodes : List Node} {p : Fault → Prop}

/-- Definitions with their names, in ascending order of the names. -/
def inOrder (nodes : List Node) : Except Fault (List (Json × Node)) := nodes.mapM named >>= byName

theorem declareAll_eq (options : Options) (nodes : List Node) :
    declareAll options nodes = inOrder nodes >>= fun entries =>
      entries.mapM fun entry => Declared.mk entry.1 <$> declaration options entry.2 := by
  unfold declareAll inOrder
  cases nodes.mapM named <;> rfl

theorem named_eq_ok {node : Node} {entry : Json × Node} :
    named node = .ok entry ↔ node.name? = some entry.1 ∧ node = entry.2 := by
  unfold named
  cases node.name? with
  | none => simp
  | some name => simp [Prod.ext_iff]

/-- Sorting by name loses no definition and adds none. -/
theorem byName_perm {entries sorted : List (Json × Node)} (h : byName entries = .ok sorted) :
    sorted.Perm entries := by
  unfold byName at h
  split at h
  · obtain rfl := Except.ok.inj h
    exact List.mergeSort_perm _ _
  · split at h
    · obtain rfl := Except.ok.inj h
      exact Sorting.sort?_perm ‹_›
    · simp at h

/-- The definitions in ascending order of their names are the definitions. -/
theorem inOrder_perm {entries : List (Json × Node)} (h : inOrder nodes = .ok entries) :
    (entries.map (·.2)).Perm nodes := by
  obtain ⟨found, hfound, hsort⟩ := bind_eq_ok.mp h
  have hnodes : found.map (·.2) = nodes.map id :=
    map_eq_map_of_mapM hfound fun node _ entry hnamed => (named_eq_ok.mp hnamed).2.symm
  rw [← List.map_id nodes, ← hnodes]
  exact (byName_perm hsort).map _

theorem mem_of_inOrder {entries : List (Json × Node)} (h : inOrder nodes = .ok entries)
    {entry : Json × Node} (hmem : entry ∈ entries) :
    entry.2 ∈ nodes ∧ entry.2.name? = some entry.1 := by
  obtain ⟨found, hfound, hsort⟩ := bind_eq_ok.mp h
  obtain ⟨node, hnode, hnamed⟩ := exists_of_mem_mapM hfound entry ((byName_perm hsort).mem_iff.mp hmem)
  obtain ⟨hname, rfl⟩ := named_eq_ok.mp hnamed
  exact ⟨hnode, hname⟩

theorem inOrder_mem {entries : List (Json × Node)} (h : inOrder nodes = .ok entries)
    {node : Node} (hmem : node ∈ nodes) : ∃ entry ∈ entries, entry.2 = node := by
  obtain ⟨found, hfound, hsort⟩ := bind_eq_ok.mp h
  obtain ⟨entry, hentry, hnamed⟩ := exists_mem_of_mapM hfound node hmem
  exact ⟨entry, (byName_perm hsort).mem_iff.mpr hentry, (named_eq_ok.mp hnamed).2.symm⟩

/-- Names that are texts can be sorted; other names may stop the sorting. -/
theorem byName_failsOnly {entries : List (Json × Node)}
    (h : ∀ entry ∈ entries, entry.1.isText = true ∨ p .typeMismatch) :
    FailsOnly p (byName entries) := by
  unfold byName
  split
  · exact .ok _
  · rename_i hall
    rw [List.all_eq_true, not_forall₂] at hall
    obtain ⟨entry, hmem, hno⟩ := hall
    have hp : p .typeMismatch := (h entry hmem).resolve_left hno
    split
    · exact .ok _
    · exact .error hp

/-- What is asked of definitions so that their names stop nothing else than `p`
allows. -/
def NamesAllow (p : Fault → Prop) (nodes : List Node) : Prop :=
  ∀ node ∈ nodes, ∃ name, node.name? = some name ∧ (name.isText = true ∨ p .typeMismatch)

theorem inOrder_failsOnly (h : NamesAllow p nodes) : FailsOnly p (inOrder nodes) := by
  refine .bind (.mapM fun node hmem => ?_) fun entries hentries => byName_failsOnly fun entry he => ?_
  · obtain ⟨name, hname, -⟩ := h node hmem
    have hnamed : named node = .ok (name, node) := named_eq_ok.mpr ⟨hname, rfl⟩
    rw [hnamed]
    exact .ok _
  · obtain ⟨node, hnode, hnamed⟩ := exists_of_mem_mapM hentries entry he
    obtain ⟨name, hname, hp⟩ := h node hnode
    obtain ⟨hentry, -⟩ := named_eq_ok.mp hnamed
    rwa [Option.some.inj (hname.symm.trans hentry)] at hp

theorem declareAll_failsOnly (hnames : NamesAllow p nodes)
    (h : ∀ node ∈ nodes, FailsOnly p (declaration options node)) :
    FailsOnly p (declareAll options nodes) := by
  rw [declareAll_eq]
  refine .bind (inOrder_failsOnly hnames) fun entries hentries => .mapM fun entry hmem => ?_
  exact .map _ (h entry.2 (mem_of_inOrder hentries hmem).1)

/-- Each declaration is one of a definition, under its name. -/
theorem exists_of_mem_declareAll {declared : List Declared}
    (h : declareAll options nodes = .ok declared) {type : Declared} (hmem : type ∈ declared) :
    ∃ node ∈ nodes, node.name? = some type.name ∧
      declaration options node = .ok type.declaration := by
  rw [declareAll_eq] at h
  obtain ⟨entries, hentries, h⟩ := bind_eq_ok.mp h
  obtain ⟨entry, hentry, hdecl⟩ := exists_of_mem_mapM h type hmem
  obtain ⟨hnode, hname⟩ := mem_of_inOrder hentries hentry
  obtain ⟨text, htext, rfl⟩ := map_eq_ok.mp hdecl
  exact ⟨entry.2, hnode, hname, htext⟩

/-- Each definition is declared under its name. -/
theorem exists_mem_declareAll {declared : List Declared}
    (h : declareAll options nodes = .ok declared) {node : Node} (hmem : node ∈ nodes) :
    ∃ type ∈ declared, node.name? = some type.name := by
  rw [declareAll_eq] at h
  obtain ⟨entries, hentries, h⟩ := bind_eq_ok.mp h
  obtain ⟨entry, hentry, rfl⟩ := inOrder_mem hentries hmem
  obtain ⟨type, htype, hdecl⟩ := exists_mem_of_mapM h entry hentry
  obtain ⟨text, -, rfl⟩ := map_eq_ok.mp hdecl
  exact ⟨_, htype, (mem_of_inOrder hentries hentry).2⟩

/-- Each definition is declared. -/
theorem declaration_of_declareAll {declared : List Declared}
    (h : declareAll options nodes = .ok declared) {node : Node} (hmem : node ∈ nodes) :
    ∃ text, declaration options node = .ok text := by
  rw [declareAll_eq] at h
  obtain ⟨entries, hentries, h⟩ := bind_eq_ok.mp h
  obtain ⟨entry, hentry, rfl⟩ := inOrder_mem hentries hmem
  obtain ⟨type, -, hdecl⟩ := exists_mem_of_mapM h entry hentry
  obtain ⟨text, htext, -⟩ := map_eq_ok.mp hdecl
  exact ⟨text, htext⟩

theorem namesOf_failsOnly (hnames : NamesAllow p nodes) {declared : List Declared}
    (h : declareAll options nodes = .ok declared) : FailsOnly p (namesOf declared) := by
  refine .mapM fun type hmem => ?_
  obtain ⟨node, hnode, hname, -⟩ := exists_of_mem_declareAll h hmem
  obtain ⟨name, hname', hp⟩ := hnames node hnode
  obtain rfl := Option.some.inj (hname'.symm.trans hname)
  exact asText_failsOnly hp

/-- **A module stops with a fault of a declaration or of a name.** -/
theorem moduleOf_failsOnly {schema : Schema}
    (hnames : ∀ part, NamesAllow p (schema.registry part).definitions)
    (h : ∀ part, ∀ node ∈ (schema.registry part).definitions, FailsOnly p (declaration options node)) :
    FailsOnly p (moduleOf options schema) := by
  have hdocuments := declareAll_failsOnly (hnames .documents) (h .documents)
  have hnested := declareAll_failsOnly (hnames .nested) (h .nested)
  unfold moduleOf Declarations.ofSchema Declarations.moduleText
  simp only [bind_assoc, pure_bind]
  refine .bind hdocuments fun documents hd => .bind hnested fun nested hn => ?_
  refine .bind (namesOf_failsOnly (hnames .documents) hd) fun _ _ => ?_
  exact .bind (namesOf_failsOnly (hnames .nested) hn) fun _ _ => .ok _

/-- **A module that is rendered declares every definition.** -/
theorem declaration_of_moduleOf {schema : Schema} {text : String}
    (h : moduleOf options schema = .ok text) (part : Section) {node : Node}
    (hmem : node ∈ (schema.registry part).definitions) :
    ∃ text, declaration options node = .ok text := by
  unfold moduleOf Declarations.ofSchema at h
  obtain ⟨declarations, h, -⟩ := bind_eq_ok.mp h
  obtain ⟨documents, hdocuments, h⟩ := bind_eq_ok.mp h
  obtain ⟨nested, hnested, -⟩ := bind_eq_ok.mp h
  cases part with
  | documents => exact declaration_of_declareAll hdocuments hmem
  | nested => exact declaration_of_declareAll hnested hmem

end TypeScript
end ContentDecl
