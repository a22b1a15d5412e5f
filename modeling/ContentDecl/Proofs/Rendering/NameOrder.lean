/-
# Definitions in the order of their names

If the names of definitions are texts, they have one order: ascending by code
points, those of equal names as they stood before. `InNameOrder` says this of a
list of definitions, without saying how it was sorted, and the order in which a
module declares and lists its definitions is this one.

Key definitions: `Node.nameText`, `HasTextName`, `InNameOrder`.
Key theorems: `InNameOrder.mergeSort`, `InNameOrder.unique`, `inOrder_texts`,
`moduleOf_texts`, `moduleOf_eq_moduleText`.
-/
import ContentDecl.Proofs.Rendering.Module

namespace ContentDecl

/-- The name of a node where it is printed. -/
def Node.nameText (node : Node) : String := (node.name?.getD .null).text

@[simp] theorem Node.nameText_document (name : String) (fields computed : Node)
    (description extensions : Json) :
    (Node.document (.str name) fields computed description extensions).nameText = name := rfl

namespace TypeScript

open Result

variable {nodes : List Node}

/-- A node whose name is a text. -/
def HasTextName (node : Node) : Prop := ∃ s, node.name? = some (.str s)

/-- The definitions of a list in ascending order of their names, those of one name in
the order of the list. -/
structure InNameOrder (nodes sorted : List Node) : Prop where
  perm : sorted.Perm nodes
  ascending : sorted.Pairwise fun a b => a.nameText ≤ b.nameText
  stable : ∀ name, sorted.filter (·.nameText == name) = nodes.filter (·.nameText == name)

/-- Whether a definition may come before another one. -/
def nameLE (a b : Node) : Bool := a.nameText ≤ b.nameText

theorem nameLE_trans (a b c : Node) (hab : nameLE a b = true) (hbc : nameLE b c = true) :
    nameLE a c = true := by
  simp only [nameLE, decide_eq_true_eq] at *
  exact String.le_trans hab hbc

theorem nameLE_total (a b : Node) : (nameLE a b || nameLE b a) = true := by
  simp only [nameLE, Bool.or_eq_true, decide_eq_true_eq]
  exact String.le_total _ _

/-- A merge sort by name is in the order of the names. -/
theorem InNameOrder.mergeSort (nodes : List Node) : InNameOrder nodes (nodes.mergeSort nameLE) where
  perm := List.mergeSort_perm _ _
  ascending := (List.pairwise_mergeSort nameLE_trans nameLE_total nodes).imp
    fun h => of_decide_eq_true h
  stable name := by
    -- The definitions of one name are a sorted part of the list, which sorting keeps.
    have hsorted : (nodes.filter (·.nameText == name)).Pairwise fun a b => nameLE a b = true := by
      refine List.Pairwise.imp_of_mem ?_ (List.pairwise_of_forall (R := fun _ _ => True) fun _ _ => trivial)
      intro a b ha hb _
      have ha : a.nameText = name := by simpa using (List.mem_filter.mp ha).2
      have hb : b.nameText = name := by simpa using (List.mem_filter.mp hb).2
      rw [nameLE, ha, hb]
      exact decide_eq_true (String.le_refl name)
    have hsub := (List.sublist_mergeSort nameLE_trans nameLE_total hsorted
      List.filter_sublist).filter (·.nameText == name)
    rw [List.filter_filter] at hsub
    simp only [Bool.and_self] at hsub
    exact (hsub.eq_of_length ((List.mergeSort_perm _ _).filter _).length_eq.symm).symm

/-- Two ascending lists are equal if the definitions of each name are the same in both. -/
theorem eq_of_ascending : ∀ {as bs : List Node},
    as.Pairwise (fun a b => a.nameText ≤ b.nameText) →
    bs.Pairwise (fun a b => a.nameText ≤ b.nameText) →
    (∀ name, as.filter (·.nameText == name) = bs.filter (·.nameText == name)) → as = bs
  | [], [], _, _, _ => rfl
  | [], b :: bs, _, _, h => by simpa using h b.nameText
  | a :: as, [], _, _, h => by simpa using h a.nameText
  | a :: as, b :: bs, ha, hb, h => by
    -- Each head is also in the other list, so that neither name comes before the other.
    obtain ⟨hale, has⟩ := List.pairwise_cons.mp ha
    obtain ⟨hble, hbs⟩ := List.pairwise_cons.mp hb
    have hab : a.nameText ≤ b.nameText := by
      have hmem : b ∈ (a :: as).filter (·.nameText == b.nameText) := by
        rw [h b.nameText]
        simp
      obtain rfl | hmem := List.mem_cons.mp (List.mem_filter.mp hmem).1
      · exact String.le_refl _
      · exact hale b hmem
    have hba : b.nameText ≤ a.nameText := by
      have hmem : a ∈ (b :: bs).filter (·.nameText == a.nameText) := by
        rw [← h a.nameText]
        simp
      obtain rfl | hmem := List.mem_cons.mp (List.mem_filter.mp hmem).1
      · exact String.le_refl _
      · exact hble a hmem
    have hname : a.nameText = b.nameText := String.le_antisymm hab hba
    have hheads := h a.nameText
    rw [List.filter_cons_of_pos (by simp), List.filter_cons_of_pos (by simp [hname])] at hheads
    obtain ⟨rfl, htail⟩ := List.cons.inj hheads
    have hrest : ∀ name, as.filter (·.nameText == name) = bs.filter (·.nameText == name) := by
      intro name
      by_cases heq : a.nameText = name
      · rw [← heq, htail]
      · simpa [heq] using h name
    rw [eq_of_ascending has hbs hrest]

/-- Definitions that are in ascending order stay as they are. -/
theorem InNameOrder.of_ascending (h : nodes.Pairwise fun a b => a.nameText ≤ b.nameText) :
    InNameOrder nodes nodes := ⟨.refl nodes, h, fun _ => rfl⟩

/-- There is one order of the names. -/
theorem InNameOrder.unique {sorted other : List Node} (h : InNameOrder nodes sorted)
    (h' : InNameOrder nodes other) : sorted = other :=
  eq_of_ascending h.ascending h'.ascending fun name => (h.stable name).trans (h'.stable name).symm

/-- A change that keeps the names keeps the order. -/
theorem InNameOrder.map {sorted : List Node} (h : InNameOrder nodes sorted) {f : Node → Node}
    (hf : ∀ node, (f node).nameText = node.nameText) :
    InNameOrder (nodes.map f) (sorted.map f) where
  perm := h.perm.map f
  ascending := by
    rw [List.pairwise_map]
    simpa only [hf] using h.ascending
  stable name := by
    have hname : ((·.nameText == name) ∘ f) = (·.nameText == name) := by
      funext node
      rw [Function.comp_apply, hf]
    rw [List.filter_map, List.filter_map, hname, h.stable name]

/-- Only names that are texts are listed, so a module is rendered only of these. -/
theorem hasTextName_of_moduleOf {options : Options} {schema : Schema} {text : String}
    (h : moduleOf options schema = .ok text) :
    ∀ part, ∀ node ∈ (schema.registry part).definitions, HasTextName node := by
  have hlisted : ∀ {nodes : List Node} {declared : List Declared} {names : List String},
      declareAll options nodes = .ok declared → namesOf declared = .ok names →
      ∀ node ∈ nodes, HasTextName node := by
    intro nodes declared names hdeclared hnames node hmem
    obtain ⟨type, htype, hname⟩ := exists_mem_declareAll hdeclared hmem
    obtain ⟨name, -, htext⟩ := exists_mem_of_mapM hnames type htype
    cases hvalue : type.name with
    | str s => exact ⟨s, by rw [hname, hvalue]⟩
    | _ => simp [asText, hvalue] at htext
  obtain ⟨declarations, hdeclarations, h⟩ := bind_eq_ok.mp h
  obtain ⟨documents, hdocuments, hdeclarations⟩ := bind_eq_ok.mp hdeclarations
  obtain ⟨nested, hnested, hdeclarations⟩ := bind_eq_ok.mp hdeclarations
  obtain rfl := pure_eq_ok.mp hdeclarations
  obtain ⟨documentNames, hdocumentNames, h⟩ := bind_eq_ok.mp h
  obtain ⟨nestedNames, hnestedNames, -⟩ := bind_eq_ok.mp h
  intro part
  cases part with
  | documents => exact hlisted hdocuments hdocumentNames
  | nested => exact hlisted hnested hnestedNames

theorem HasTextName.named {node : Node} (h : HasTextName node) :
    named node = .ok (.str node.nameText, node) := by
  obtain ⟨s, hs⟩ := h
  refine named_eq_ok.mpr ⟨?_, rfl⟩
  simp [Node.nameText, hs, Json.text]

/-- Definitions whose names are texts can be sorted, and are then in the order of the
names. -/
theorem inOrder_texts (h : ∀ node ∈ nodes, HasTextName node) :
    ∃ sorted, InNameOrder nodes sorted ∧
      inOrder nodes = .ok (sorted.map fun node => (.str node.nameText, node)) := by
  refine ⟨nodes.mergeSort nameLE, .mergeSort nodes, ?_⟩
  have hnamed : nodes.mapM named = .ok (nodes.map fun node => (.str node.nameText, node)) :=
    mapM_eq_ok_map fun node hmem => (h node hmem).named
  rw [inOrder, hnamed, ok_bind, byName, if_pos (by simp [Json.isText])]
  congr 1
  refine (List.map_mergeSort fun a _ b _ => ?_).symm
  simp [nameLE, Json.less?, ← String.not_lt]

/-! ### Modules -/

/-- A value for each section. -/
def bySection {α : Type} (documents nested : α) : Section → α
  | .documents => documents
  | .nested => nested

@[simp] theorem bySection_documents {α : Type} (documents nested : α) :
    bySection documents nested .documents = documents := rfl

@[simp] theorem bySection_nested {α : Type} (documents nested : α) :
    bySection documents nested .nested = nested := rfl

/-- A declaration under the name of its definition. -/
def declaredAs (node : Node) (text : String) : Declared := ⟨.str node.nameText, text⟩

/-- Definitions are declared one by one in the order of their names. -/
theorem declareAll_texts (h : ∀ node ∈ nodes, HasTextName node) :
    ∃ sorted, InNameOrder nodes sorted ∧ ∀ options, declareAll options nodes =
      List.zipWith declaredAs sorted <$> sorted.mapM (declaration options) := by
  obtain ⟨sorted, hsorted, hentries⟩ := inOrder_texts h
  refine ⟨sorted, hsorted, fun options => ?_⟩
  rw [declareAll_eq, hentries, ok_bind, List.mapM_map]
  exact mapM_map_zipWith (declaration options) declaredAs sorted

theorem namesOf_declaredAs : ∀ {nodes : List Node} {texts : List String},
    nodes.length = texts.length →
    namesOf (List.zipWith declaredAs nodes texts) = .ok (nodes.map Node.nameText)
  | [], [], _ => rfl
  | node :: nodes, text :: texts, h => by
    have hrest : namesOf (List.zipWith declaredAs nodes texts) = .ok (nodes.map Node.nameText) :=
      namesOf_declaredAs (Nat.succ.inj h)
    rw [namesOf] at hrest ⊢
    rw [List.zipWith_cons_cons, List.mapM_cons, hrest]
    rfl

theorem declaration_declaredAs : ∀ {nodes : List Node} {texts : List String},
    nodes.length = texts.length →
    (List.zipWith declaredAs nodes texts).map (·.declaration) = texts
  | [], [], _ => rfl
  | node :: nodes, text :: texts, h => by
    rw [List.zipWith_cons_cons, List.map_cons, declaration_declaredAs (Nat.succ.inj h)]
    rfl

/-- **A schema whose names are texts is rendered in the order of the names.** -/
theorem moduleOf_texts {schema : Schema}
    (h : ∀ part, ∀ node ∈ (schema.registry part).definitions, HasTextName node) :
    ∃ sorted : Section → List Node,
      (∀ part, InNameOrder (schema.registry part).definitions (sorted part)) ∧
      ∀ options, moduleOf options schema = do
        let documents ← (sorted .documents).mapM (declaration options)
        let nested ← (sorted .nested).mapM (declaration options)
        return moduleText options ((sorted .documents).map Node.nameText)
          ((sorted .nested).map Node.nameText) documents nested := by
  obtain ⟨documents, hdocuments, hd⟩ := declareAll_texts (h .documents)
  obtain ⟨nested, hnested, hn⟩ := declareAll_texts (h .nested)
  refine ⟨bySection documents nested, fun part => ?_, fun options => ?_⟩
  · cases part with
    | documents => exact hdocuments
    | nested => exact hnested
  · rw [bySection_documents, bySection_nested]
    unfold moduleOf Declarations.ofSchema
    rw [show schema.documents.definitions = (schema.registry .documents).definitions from rfl,
      show schema.nested.definitions = (schema.registry .nested).definitions from rfl, hd, hn]
    cases hdt : documents.mapM (declaration options) with
    | error fault => rfl
    | ok documentTexts =>
      cases hnt : nested.mapM (declaration options) with
      | error fault => rfl
      | ok nestedTexts =>
        have hdl := (mapM_eq_ok_iff.mp hdt).length_eq
        have hnl := (mapM_eq_ok_iff.mp hnt).length_eq
        simp only [map_ok, ok_bind, pure_bind, Declarations.moduleText, namesOf_declaredAs hdl,
          namesOf_declaredAs hnl, declaration_declaredAs hdl, declaration_declaredAs hnl]

/-- The module of definitions in the order of their names, from their declarations. -/
theorem moduleOf_eq_moduleText {options : Options} {schema : Schema}
    {sorted : Section → List Node} {declarations : Section → List String}
    (hnames : ∀ part, ∀ node ∈ (schema.registry part).definitions, HasTextName node)
    (horder : ∀ part, InNameOrder (schema.registry part).definitions (sorted part))
    (hdeclared : ∀ part, (sorted part).mapM (declaration options) = .ok (declarations part)) :
    moduleOf options schema = .ok (moduleText options ((sorted .documents).map Node.nameText)
      ((sorted .nested).map Node.nameText) (declarations .documents) (declarations .nested)) := by
  obtain ⟨sorted', hsorted, hmodule⟩ := moduleOf_texts hnames
  obtain rfl : sorted' = sorted := funext fun part => (hsorted part).unique (horder part)
  rw [hmodule options, hdeclared, ok_bind, hdeclared, ok_bind]
  rfl

/-- Definitions that are already in this order are listed as they stand. -/
theorem moduleOf_of_ascending {options : Options} {schema : Schema}
    {declarations : Section → List String}
    (hnames : ∀ part, ∀ node ∈ (schema.registry part).definitions, HasTextName node)
    (hascending : ∀ part,
      (schema.registry part).definitions.Pairwise fun a b => a.nameText ≤ b.nameText)
    (hdeclared : ∀ part, List.Forall₂ (fun node text => declaration options node = .ok text)
      (schema.registry part).definitions (declarations part)) :
    moduleOf options schema =
      .ok (moduleText options ((schema.registry .documents).definitions.map Node.nameText)
        ((schema.registry .nested).definitions.map Node.nameText) (declarations .documents)
        (declarations .nested)) := by
  have horder : ∀ part, InNameOrder (schema.registry part).definitions
      (schema.registry part).definitions := fun part => .of_ascending (hascending part)
  have hdeclarations : ∀ part, (schema.registry part).definitions.mapM (declaration options) =
      .ok (declarations part) := fun part => mapM_eq_ok_iff.mpr (hdeclared part)
  rw [moduleOf_eq_moduleText hnames horder hdeclarations]

/-- A schema is rendered if each definition is. -/
theorem exists_moduleOf {options : Options} {schema : Schema}
    (hnames : ∀ part, ∀ node ∈ (schema.registry part).definitions, HasTextName node)
    (h : ∀ part, ∀ node ∈ (schema.registry part).definitions,
      ∃ text, declaration options node = .ok text) :
    ∃ text, moduleOf options schema = .ok text := by
  obtain ⟨sorted, hsorted, hmodule⟩ := moduleOf_texts hnames
  have hpart : ∀ part, ∃ texts, (sorted part).mapM (declaration options) = .ok texts := by
    refine fun part => exists_mapM fun node hmem => ?_
    exact h part node ((hsorted part).perm.mem_iff.mp hmem)
  obtain ⟨documents, hdocuments⟩ := hpart .documents
  obtain ⟨nested, hnested⟩ := hpart .nested
  rw [hmodule options, hdocuments, ok_bind, hnested, ok_bind]
  exact ⟨_, rfl⟩

end TypeScript
end ContentDecl
