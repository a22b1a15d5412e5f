/-
# Unions of literals read back

A union of literals is read from left to right: a quote, the characters up to the next
quote that no backslash stands for, and then the end or a bar between blanks before the
next quote. Inside a literal a bar is a character like others, because the reader is at
a bar only behind a closing quote; and it is not misled by quotes and backslashes,
because a literal is read to its own closing quote whatever follows (`Escaped.read`).

So every list of texts is read back from the union of its literals, and no two lists
have the same union. Unions of literals are printed for the options of a field or of a
list item, and for the names of the types of a module, where an empty one is the type
without values.

Key definitions: `readMembers`, `readUnion`, `readNames`, `replaceEach`.
Key theorems: `flatMap_escape_eq_replaceEach`, `readUnion_literals`,
`union_literals_injective`, `literalUnions_read`.
-/
import ContentDecl.Proofs.Rendering.Listings

namespace ContentDecl
namespace TypeScript

open Result

/-! ### Escaping by replacement -/

/-- A text with other characters in each place of one character. -/
def replaceEach (c : Char) (replacement cs : List Char) : List Char :=
  cs.flatMap fun d => if d = c then replacement else [d]

/-- Escaping is to double the backslashes and then to put one before each quote. The
other way round the backslashes that were put in would be doubled as well. -/
theorem flatMap_escape_eq_replaceEach (cs : List Char) :
    cs.flatMap escape
      = replaceEach '\x27' ['\\', '\x27'] (replaceEach '\\' ['\\', '\\'] cs) := by
  unfold replaceEach
  rw [List.flatMap_assoc]
  refine List.flatMap_congr fun c _ => ?_
  by_cases hbackslash : c = '\\'
  · subst hbackslash
    rfl
  · by_cases hquote : c = '\x27'
    · subst hquote
      rfl
    · simp [escape, hbackslash, hquote]

theorem toList_literal (s : String) :
    (literal s).toList = '\x27' :: (s.toList.flatMap escape ++ ['\x27']) := by
  rw [literal, String.toList_ofList]

/-! ### The reader -/

/-- The texts of a union of literals, from behind the first quote. -/
def readMembers (cs : List Char) : Option (List String) :=
  match _hread : readLiteral cs with
  | some (s, []) => some [String.ofList s]
  | some (s, ' ' :: '|' :: ' ' :: '\x27' :: rest) =>
    (readMembers rest).map (String.ofList s :: ·)
  | _ => none
termination_by cs.length
decreasing_by
  have hlt := length_readLiteral _hread
  simp only [List.length_cons] at hlt
  omega

/-- The texts of a union of literals; the empty text is the union of none. -/
def readUnion (text : String) : Option (List String) :=
  match text.toList with
  | [] => some []
  | '\x27' :: cs => readMembers cs
  | _ => none

theorem readMembers_last {cs s : List Char} (h : readLiteral cs = some (s, [])) :
    readMembers cs = some [String.ofList s] := by
  rw [readMembers]
  split
  all_goals simp_all

theorem readMembers_more {cs s rest : List Char}
    (h : readLiteral cs = some (s, ' ' :: '|' :: ' ' :: '\x27' :: rest)) :
    readMembers cs = (readMembers rest).map (String.ofList s :: ·) := by
  rw [readMembers]
  split
  all_goals simp_all

/-! ### What is read -/

/-- A union of literals that has one starts with a quote, and behind it all its texts are
read: the first up to its own closing quote, the others behind the bar. -/
theorem readMembers_literals : ∀ (s : String) (texts : List String),
    ∃ cs, (union ((s :: texts).map literal)).toList = '\x27' :: cs ∧
      readMembers cs = some (s :: texts)
  | s, [] => by
    have hread := (escaped_flatMap_escape s.toList).read []
    refine ⟨s.toList.flatMap escape ++ ['\x27'], ?_, ?_⟩
    · rw [List.map_singleton, union, String.intercalate_singleton, toList_literal]
    · rw [readMembers_last hread, String.ofList_toList]
  | s, next :: texts => by
    obtain ⟨cs, hcs, hrest⟩ := readMembers_literals next texts
    have hread := (escaped_flatMap_escape s.toList).read (' ' :: '|' :: ' ' :: '\x27' :: cs)
    refine ⟨s.toList.flatMap escape ++ '\x27' :: ' ' :: '|' :: ' ' :: '\x27' :: cs, ?_, ?_⟩
    · rw [List.map_cons] at hcs
      rw [List.map_cons, List.map_cons, union_cons_cons, hcs, toList_literal]
      simp
    · rw [readMembers_more hread, hrest, Option.map_some, String.ofList_toList]

/-- **A union of literals is read as the texts it was made of.** -/
theorem readUnion_literals (texts : List String) :
    readUnion (union (texts.map literal)) = some texts := by
  cases texts with
  | nil => rfl
  | cons s texts =>
    obtain ⟨cs, hcs, hread⟩ := readMembers_literals s texts
    rw [readUnion, hcs]
    exact hread

/-- **No two lists of texts have the same union of literals.** -/
theorem union_literals_injective :
    Function.Injective fun texts : List String => union (texts.map literal) := by
  intro texts others h
  have hread := readUnion_literals texts
  rw [show union (texts.map literal) = union (others.map literal) from h,
    readUnion_literals] at hread
  exact (Option.some.inj hread).symm

/-! ### Where such unions are printed -/

/-- The names in the union of the names of a section, which is the type without values
if there are none. -/
def readNames (text : String) : Option (List String) :=
  if text = never then some [] else readUnion text

theorem readNames_literals (names : List String) :
    readNames (unionText (names.map literal)) = some names := by
  cases names with
  | nil => rfl
  | cons name names =>
    have hnever : unionText ((name :: names).map literal) ≠ never := by
      rw [unionText_eq_alternatives]
      exact alternatives_literals_ne_never name (names.map literal)
    rw [readNames, if_neg hnever]
    exact readUnion_literals (name :: names)

/-- Options have literals exactly if all of them are texts. -/
theorem literalsOf_eq_ok_iff {options : Json} {literals : List String} :
    literalsOf options = .ok literals ↔
      ∃ texts : List String, options.elements? = some (texts.map .str) ∧
        literals = texts.map literal := by
  constructor
  · intro h
    unfold literalsOf at h
    cases helements : options.elements? with
    | none => simp [helements] at h
    | some elements =>
      rw [helements] at h
      have htext : ∀ element ∈ elements, element.isText = true := by
        intro element hmem
        obtain ⟨text, -, htext⟩ := exists_mem_of_mapM h element hmem
        cases element with
        | str s => rfl
        | _ => cases htext
      obtain ⟨texts, htexts⟩ := exists_listing elements htext
      obtain rfl := Json.arr.inj htexts
      have hliterals : texts.map literal = literals :=
        Except.ok.inj ((mapM_literalOf texts).symm.trans h)
      exact ⟨texts, rfl, hliterals.symm⟩
  · rintro ⟨texts, helements, rfl⟩
    simp only [literalsOf, helements, mapM_literalOf]

/-- The type expression of a field of options is read as its options. -/
theorem readUnion_kindType {options type : Json} (h : kindType (.enum options) = .ok type) :
    ∃ texts text, options.elements? = some (texts.map .str) ∧ type = .str text ∧
      readUnion text = some texts := by
  obtain ⟨literals, hliterals, rfl⟩ := map_eq_ok.mp h
  obtain ⟨texts, helements, rfl⟩ := literalsOf_eq_ok_iff.mp hliterals
  exact ⟨texts, _, helements, rfl, readUnion_literals texts⟩

/-- The type expression of an item of options is read as its options, between its
parentheses. -/
theorem readUnion_itemKindType {options type : Json}
    (h : itemKindType (.enum options) = .ok type) :
    ∃ texts text, options.elements? = some (texts.map .str) ∧ type = .str (parenthesized text) ∧
      readUnion text = some texts := by
  obtain ⟨literals, hliterals, rfl⟩ := map_eq_ok.mp h
  obtain ⟨texts, helements, rfl⟩ := literalsOf_eq_ok_iff.mp hliterals
  exact ⟨texts, _, helements, rfl, readUnion_literals texts⟩

/-- The union of the names of a section is read as the names of its definitions. -/
theorem readNames_listing (sorted : List Node) (declarations : List String) :
    readNames (Listing.names.text sorted declarations) = some (sorted.map Node.nameText) := by
  have hread := readNames_literals (sorted.map Node.nameText)
  rw [unionText_eq_alternatives, List.map_map] at hread
  exact hread

/-- **Unions of literals are uniquely decodable.** A literal is its text with backslashes
and then quotes escaped by replacement. The union of the literals of some texts is read as
these texts, so that no two lists have the same union. It is what options have for their
type expression, in the place of a field and, in parentheses, in the place of an item: if
there is one, it is read as the options. And in a module that is rendered, the union of
the names of a section is read as the names of its definitions. -/
theorem literalUnions_read :
    (∀ s, (literal s).toList = '\x27' :: (replaceEach '\x27' ['\\', '\x27']
      (replaceEach '\\' ['\\', '\\'] s.toList) ++ ['\x27'])) ∧
    (∀ texts, readUnion (union (texts.map literal)) = some texts) ∧
    (Function.Injective fun texts : List String => union (texts.map literal)) ∧
    (∀ texts, kindType (.enum (listing texts)) = .ok (.str (union (texts.map literal))) ∧
      itemKindType (.enum (listing texts))
        = .ok (.str (parenthesized (union (texts.map literal))))) ∧
    (∀ options type, kindType (.enum options) = .ok type →
      ∃ texts text, options.elements? = some (texts.map .str) ∧ type = .str text ∧
        readUnion text = some texts) ∧
    (∀ options type, itemKindType (.enum options) = .ok type →
      ∃ texts text, options.elements? = some (texts.map .str) ∧
        type = .str (parenthesized text) ∧ readUnion text = some texts) ∧
    (∀ options schema text, moduleOf options schema = .ok text →
      ∃ (sorted : Section → List Node) (declarations : Section → List String),
        (∀ part, Listed options (schema.registry part).definitions (sorted part)
          (declarations part)) ∧
        text = fill (content options sorted declarations) layout ∧
        ∀ part, readNames (Listing.names.text (sorted part) (declarations part))
          = some ((sorted part).map Node.nameText)) := by
  refine ⟨fun s => ?_, readUnion_literals, union_literals_injective, fun texts => ⟨?_, ?_⟩,
    fun options type h => readUnion_kindType h, fun options type h => readUnion_itemKindType h,
    fun options schema text h => ?_⟩
  · rw [toList_literal, flatMap_escape_eq_replaceEach]
  · rw [kindType, literalsOf_texts, map_ok]
  · rw [itemKindType, literalsOf_texts, map_ok]
  · obtain ⟨sorted, declarations, hlisted, hfill⟩ :=
      moduleOf_listings (hasTextName_of_moduleOf h) h
    exact ⟨sorted, declarations, hlisted, hfill, fun part => readNames_listing _ _⟩

/-- Options with a backslash before the closing quote, with what stands between two
literals, with nothing, and with a quote behind a backslash. -/
def trickyOptions : List String := ["a\\", "b' | 'c", "", "\\'"]

def trickyText : String := "'a\\\\' | 'b\\' | \\'c' | '' | '\\\\\\''"

/-- A nested type whose name looks like a union of two. -/
def barredType : Node := .nestedType (.str "a' | 'b") (.group []) .null (.obj [])

def barredSchema : Schema := { nested := [(.str "a", barredType)] }

theorem trickyOptions_read :
    kindType (.enum (listing trickyOptions)) = .ok (.str trickyText) ∧
    readUnion trickyText = some trickyOptions ∧
    ∃ text, moduleOf {} barredSchema = .ok text ∧
      ∃ (sorted : Section → List Node) (declarations : Section → List String),
        (∀ part, Listed {} (barredSchema.registry part).definitions (sorted part)
          (declarations part)) ∧
        text = fill (content {} sorted declarations) layout ∧
        ∀ part, readNames (Listing.names.text (sorted part) (declarations part))
          = some ((sorted part).map Node.nameText) := by
  obtain ⟨-, -, -, -, hfield, -, hmodule⟩ := literalUnions_read
  have htype : kindType (.enum (listing trickyOptions)) = .ok (.str trickyText) := by
    with_unfolding_all rfl
  have hrendered : ∃ text, moduleOf {} barredSchema = .ok text := by
    refine exists_moduleOf (fun part node hmem => ?_) fun part node hmem => ?_
    all_goals
      cases part with
      | documents => cases hmem
      | nested =>
        obtain rfl := List.mem_singleton.mp hmem
        exact ⟨_, rfl⟩
  obtain ⟨texts, text, helements, htext, hread⟩ := hfield _ _ htype
  obtain rfl := Json.str.inj htext
  obtain ⟨text, htext⟩ := hrendered
  refine ⟨htype, ?_, text, htext, hmodule _ _ _ htext⟩
  have hsame : trickyOptions.map Json.str = texts.map Json.str := Option.some.inj helements
  have htexts : trickyOptions = texts :=
    List.map_injective_iff.mpr (fun _ _ heq => Json.str.inj heq) hsame
  rw [htexts, hread]

end TypeScript
end ContentDecl
