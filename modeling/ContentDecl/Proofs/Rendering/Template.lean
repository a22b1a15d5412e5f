/-
# Texts with lines that an adapter gives

A template is a text by its lines. Most of them are fixed; the others are given by
the wording of an adapter: the import, the comment on identifiers and the type of raw
payloads. A wording without an import leaves this line out.

A template whose fixed lines are lines is filled to a text with these very lines, so
that two texts of one template can be compared line by line. For two adapters that
both have an import, the lines that differ are those that are not fixed.

Key definitions: `Row`, `Row.text?`, `fillRows`, `splitLines`, `AllFixed`.
Key theorems: `fillRows_append`, `lines_fillRows`, `differing_lines`.
-/
import ContentDecl.Adapter
import Mathlib.Data.List.Basic

namespace ContentDecl
namespace TypeScript

/-- A line of a template. -/
inductive Row where
  | fixed (s : String)
  | adapterImport
  | idComment
  | rawType
  deriving DecidableEq, Repr

namespace Row

/-- The line that a wording makes of a row, if any. -/
def text? (wording : AdapterWording) : Row → Option String
  | fixed s => some s
  | adapterImport => wording.importLine?
  | idComment => some ("  /** " ++ wording.idComment ++ " */")
  | rawType => some ("  _raw: " ++ wording.rawType)

/-- Whether a row is left to the wording. -/
def isHole : Row → Bool
  | fixed _ => false
  | _ => true

/-- What is fixed in a row is one line. -/
def IsLine : Row → Prop
  | fixed s => '\n' ∉ s.toList
  | _ => True

end Row

/-- Some lines, each with its line break. -/
def unlines (lines : List String) : String := String.join (lines.map (· ++ "\n"))

@[simp] theorem unlines_nil : unlines [] = "" := rfl

@[simp] theorem unlines_cons (line : String) (lines : List String) :
    unlines (line :: lines) = line ++ "\n" ++ unlines lines := by
  rw [unlines, List.map_cons, String.join_cons, unlines]

theorem unlines_append (lines others : List String) :
    unlines (lines ++ others) = unlines lines ++ unlines others := by
  rw [unlines, List.map_append, String.join_append, unlines, unlines]

/-- The text that a wording makes of some rows. -/
def fillRows (wording : AdapterWording) (rows : List Row) : String :=
  unlines (rows.filterMap (·.text? wording))

variable (wording : AdapterWording)

theorem fillRows_append (rows others : List Row) :
    fillRows wording (rows ++ others) = fillRows wording rows ++ fillRows wording others := by
  rw [fillRows, List.filterMap_append, unlines_append, fillRows, fillRows]

theorem fillRows_fixed (lines : List String) :
    fillRows wording (lines.map .fixed) = unlines lines := by
  rw [fillRows, List.filterMap_map]
  exact congrArg unlines List.filterMap_some

theorem fillRows_idComment :
    fillRows wording [.idComment] = "  /** " ++ wording.idComment ++ " */" ++ "\n" := by
  simp [fillRows, Row.text?, unlines]

theorem fillRows_rawType : fillRows wording [.rawType] = "  _raw: " ++ wording.rawType ++ "\n" := by
  simp [fillRows, Row.text?, unlines]

theorem fillRows_adapterImport :
    fillRows wording [.adapterImport] = wording.importLine?.elim "" (· ++ "\n") := by
  cases himport : wording.importLine? <;> simp [fillRows, Row.text?, himport, unlines]

/-! ### The lines of a text -/

/-- The lines of a text, the last one without a line break. -/
def splitLines (s : String) : List String := (s.toList.splitOn '\n').map String.ofList

/-- Lines of characters between line breaks, and a line break behind the last one. -/
theorem flatMap_lines : ∀ {lines : List (List Char)}, lines ≠ [] →
    lines.flatMap (· ++ ['\n']) = ['\n'].intercalate lines ++ ['\n']
  | [], h => absurd rfl h
  | [line], _ => by simp
  | line :: next :: lines, _ => by
    rw [List.flatMap_cons, flatMap_lines (List.cons_ne_nil next lines), List.intercalate_cons_cons,
      List.append_assoc (line ++ ['\n'])]

theorem toList_unlines (lines : List String) :
    (unlines lines).toList = (lines.map String.toList).flatMap (· ++ ['\n']) := by
  rw [unlines, String.toList_join, List.flatMap_map, List.flatMap_map]
  simp only [String.toList_append]
  rfl

/-- The lines of a text make up the text with a line break behind it. -/
theorem unlines_splitLines (s : String) : unlines (splitLines s) = s ++ "\n" := by
  apply String.toList_inj.mp
  have hlines : (splitLines s).map String.toList = s.toList.splitOn '\n' := by
    rw [splitLines, List.map_map]
    exact List.map_id'' (fun cs => String.toList_ofList) _
  rw [toList_unlines, hlines, flatMap_lines (List.splitOn_ne_nil _ _), List.intercalate_splitOn,
    String.toList_append]
  rfl

theorem not_mem_of_mem_splitOn (x : Char) : ∀ {cs line : List Char}, line ∈ cs.splitOn x → x ∉ line
  | [], line, h => by
    obtain rfl : line = [] := by simpa using h
    exact List.not_mem_nil
  | c :: cs, line, h => by
    rw [List.splitOn_cons_eq_if_modifyHead] at h
    have hrest : ∀ other ∈ cs.splitOn x, x ∉ other := fun other => not_mem_of_mem_splitOn x
    split at h
    · obtain rfl | hmem := List.mem_cons.mp h
      · exact List.not_mem_nil
      · exact hrest line hmem
    · rename_i hne
      obtain ⟨first, others, hsplit⟩ := List.exists_cons_of_ne_nil (List.splitOn_ne_nil x cs)
      rw [hsplit] at h hrest
      obtain rfl | hmem := List.mem_cons.mp h
      · have hfirst : x ∉ first := hrest first List.mem_cons_self
        have hc : x ≠ c := fun heq => hne (by simp [heq])
        exact List.not_mem_cons_of_ne_of_not_mem hc hfirst
      · exact hrest line (List.mem_cons_of_mem _ hmem)

/-- The rows of a text that is the same for all adapters. -/
def fixedRows (s : String) : List Row := (splitLines s).map .fixed

theorem fillRows_fixedRows (s : String) : fillRows wording (fixedRows s) = s ++ "\n" := by
  rw [fixedRows, fillRows_fixed, unlines_splitLines]

/-- Rows that are fixed lines. -/
def AllFixed (rows : List Row) : Prop := ∀ row ∈ rows, row.isHole = false ∧ row.IsLine

namespace AllFixed

theorem nil : AllFixed [] := nofun

theorem fixedRows (s : String) : AllFixed (fixedRows s) := by
  intro row hmem
  obtain ⟨line, hline, rfl⟩ := List.mem_map.mp hmem
  obtain ⟨cs, hcs, rfl⟩ := List.mem_map.mp hline
  refine ⟨rfl, ?_⟩
  rw [Row.IsLine, String.toList_ofList]
  exact not_mem_of_mem_splitOn '\n' hcs

theorem flatMap {α : Type} {f : α → List Row} {as : List α} (h : ∀ a ∈ as, AllFixed (f a)) :
    AllFixed (as.flatMap f) := by
  intro row hmem
  obtain ⟨a, ha, hrow⟩ := List.mem_flatMap.mp hmem
  exact h a ha row hrow

variable {rows : List Row}

theorem isLine (h : AllFixed rows) : ∀ row ∈ rows, row.IsLine := fun row hmem => (h row hmem).2

theorem count_eq_zero (h : AllFixed rows) {row : Row} (hhole : row.isHole = true) :
    rows.count row = 0 := by
  refine List.count_eq_zero.mpr fun hmem => ?_
  rw [(h row hmem).1] at hhole
  cases hhole

end AllFixed

/-! ### Templates compared line by line -/

/-- What an adapter says of each row is one line. -/
theorem isLine_wording (adapter : Adapter) {row : Row} {line : String} (hrow : row.IsLine)
    (h : row.text? adapter.wording = some line) : '\n' ∉ line.toList := by
  cases row with
  | fixed s =>
    obtain rfl := Option.some.inj h
    exact hrow
  | adapterImport => cases adapter <;> cases h <;> simp
  | idComment => cases adapter <;> cases h <;> simp [Adapter.wording]
  | rawType => cases adapter <;> cases h <;> simp [Adapter.wording, Adapter.openRawType]

/-- Lines with a line break each are followed by an empty line. -/
theorem flatMap_lines_concat : ∀ lines : List (List Char),
    lines.flatMap (· ++ ['\n']) = ['\n'].intercalate (lines ++ [[]])
  | [] => rfl
  | [line] => by simp
  | line :: next :: lines => by
    rw [List.flatMap_cons, flatMap_lines_concat (next :: lines), List.cons_append, List.cons_append,
      List.cons_append, List.intercalate_cons_cons]

/-- The lines of a filled template are those of its rows; behind the last line break
stands an empty line. -/
theorem lines_fillRows (adapter : Adapter) {rows : List Row} (hrows : ∀ row ∈ rows, row.IsLine) :
    (fillRows adapter.wording rows).toList.splitOn '\n'
      = (rows.filterMap (·.text? adapter.wording)).map String.toList ++ [[]] := by
  rw [fillRows, toList_unlines, flatMap_lines_concat]
  refine List.splitOn_intercalate '\n' (fun line hline => ?_) (by simp)
  obtain hline | hline := List.mem_append.mp hline
  · obtain ⟨s, hs, rfl⟩ := List.mem_map.mp hline
    obtain ⟨row, hrow, htext⟩ := List.mem_filterMap.mp hs
    exact isLine_wording adapter (hrows row hrow) htext
  · obtain rfl := List.mem_singleton.mp hline
    exact List.not_mem_nil

/-- The line of a row for an adapter with an import. -/
def lineText (adapter : Adapter) (row : Row) : List Char :=
  ((row.text? adapter.wording).getD "").toList

/-- With an import, each row is a line. -/
theorem lines_of_import {adapter : Adapter} (himport : adapter.wording.importLine?.isSome = true)
    {rows : List Row} (hrows : ∀ row ∈ rows, row.IsLine) :
    (fillRows adapter.wording rows).toList.splitOn '\n' = rows.map (lineText adapter) ++ [[]] := by
  have hsome : ∀ row : Row, (row.text? adapter.wording).isSome = true := by
    intro row
    cases row with
    | adapterImport => exact himport
    | _ => rfl
  have htexts : rows.filterMap (·.text? adapter.wording)
      = rows.map fun row => (row.text? adapter.wording).getD "" := by
    rw [← List.filterMap_eq_map']
    refine List.filterMap_congr fun row _ => ?_
    obtain ⟨line, hline⟩ := Option.isSome_iff_exists.mp (hsome row)
    rw [hline, Option.getD_some]
  rw [lines_fillRows adapter hrows, htexts, List.map_map]
  rfl

/-- Two adapters that word every row of their own differently. -/
def WordedApart (a b : Adapter) : Prop :=
  ∀ row : Row, row.isHole = true → lineText a row ≠ lineText b row

/-- **Two texts of one template differ in the lines that are not fixed.** -/
theorem differing_lines {a b : Adapter} (ha : a.wording.importLine?.isSome = true)
    (hb : b.wording.importLine?.isSome = true) (hapart : WordedApart a b) {rows : List Row}
    (hrows : ∀ row ∈ rows, row.IsLine) :
    let lines (adapter : Adapter) := (fillRows adapter.wording rows).toList.splitOn '\n'
    (lines a).length = (lines b).length ∧
    (∀ i : ℕ, (lines a)[i]? ≠ (lines b)[i]? ↔ ∃ row, rows[i]? = some row ∧ row.isHole = true) ∧
    ((lines a).zip (lines b)).countP (fun pair => pair.1 != pair.2) = rows.countP Row.isHole := by
  have hrow : ∀ row : Row, lineText a row ≠ lineText b row ↔ row.isHole = true := by
    intro row
    refine ⟨fun hne => ?_, hapart row⟩
    cases row with
    | fixed s => exact absurd rfl hne
    | _ => rfl
  simp only [lines_of_import ha hrows, lines_of_import hb hrows]
  refine ⟨by simp, fun i => ?_, ?_⟩
  · by_cases hi : i < rows.length
    · rw [List.getElem?_append_left (by simpa using hi), List.getElem?_append_left (by simpa using hi),
        List.getElem?_map, List.getElem?_map, List.getElem?_eq_getElem hi]
      simpa using hrow rows[i]
    · have hi : rows.length ≤ i := Nat.le_of_not_lt hi
      rw [List.getElem?_append_right (by simpa using hi), List.getElem?_append_right (by simpa using hi),
        List.getElem?_eq_none hi]
      simp
  · -- The empty line behind the last line break is the same in both texts.
    rw [List.zip_append (by simp), List.zip_map', List.countP_append, List.countP_map]
    have hlast : ([([] : List Char)].zip [[]]).countP (fun pair => pair.1 != pair.2) = 0 := rfl
    rw [hlast, Nat.add_zero]
    refine List.countP_congr fun row _ => ?_
    simpa using hrow row

end TypeScript
end ContentDecl
