/-
# Drafts

A draft is made under a name that is not in use. `freeLabel` always finds one: no two
numbers have the same label, so as many labels as there are entries, and one more, cannot
all be in use.

With a free name, what is written behind the directories of a target is all or nothing: the
target has the whole content and nothing else is changed, or nothing is changed at all.

Key definitions: `Labelling.IsFree`, `Filled`, `Published`.
Key theorems: `freeLabel_isFree`, `publishDraft_ensures`.
-/
import ContentDecl.Proofs.Files.Tree
import Mathlib.Data.List.Nodup

namespace ContentDecl
namespace Files

open Operation

variable {tree middle : Tree} {workingDirectory directory draft : Place} {path : Path}
  {name label : String} {labelling : Labelling}

/-! ### Names that are not in use -/

/-- A choice of labels whose drafts are not there yet. -/
def Labelling.IsFree (labelling : Labelling) : Prop :=
  ∀ (tree : Tree) (directory : Place) (name : String),
    tree.get? (directory ++ [draftName name (labelling tree directory name)]) = none

theorem ofDigitChars_zeros (n : Nat) (digits : List Char) :
    Nat.ofDigitChars 10 (List.replicate n '0' ++ digits) 0 = Nat.ofDigitChars 10 digits 0 := by
  induction n with
  | zero => rfl
  | succ n ih =>
    rw [List.replicate_succ, List.cons_append, Nat.ofDigitChars_cons]
    exact ih

/-- A label is the decimal form of its number. -/
theorem ofDigitChars_labelOf (n : Nat) : Nat.ofDigitChars 10 (labelOf n).toList 0 = n := by
  rw [labelOf, String.toList_ofList, ofDigitChars_zeros]
  exact Nat.ofDigitChars_toDigits (by decide) (by decide)

theorem labelOf_injective : Function.Injective labelOf := by
  intro m n h
  have hdigits := ofDigitChars_labelOf m
  rwa [h, ofDigitChars_labelOf, eq_comm] at hdigits

theorem draftName_injective (name : String) : Function.Injective (draftName name) := by
  intro label other h
  rw [draftName, draftName, ← String.toList_inj] at h
  simpa [String.toList_inj] using h

theorem size_le_draftName (name label : String) :
    name.utf8ByteSize + 6 ≤ (draftName name label).utf8ByteSize := by
  have hdots : ".".utf8ByteSize = 1 ∧ ".tmp".utf8ByteSize = 4 := by decide
  simp only [draftName, String.utf8ByteSize_append]
  omega

/-- A draft does not have the name of its target. -/
theorem draftName_ne (name label : String) : draftName name label ≠ name := by
  intro heq
  have hsize := size_le_draftName name label
  rw [heq] at hsize
  omega

/-- What stands at a place other than the root is among the entries. -/
theorem Tree.mem_places {place : Place} (hne : place ≠ []) (h : tree.get? place ≠ none) :
    place ∈ tree.entries.map (·.1) := by
  by_contra hmem
  rw [get?_of_ne_nil _ hne] at h
  refine h (List.lookup_eq_none_iff.mpr fun found hfound => ?_)
  simp only [bne_iff_ne, ne_eq]
  rintro rfl
  exact hmem (List.mem_map_of_mem hfound)

/-- Of one label more than there are entries, one is free. -/
theorem exists_free (tree : Tree) (directory : Place) (name : String) :
    ∃ label ∈ (List.range (tree.entries.length + 1)).map labelOf,
      tree.get? (directory ++ [draftName name label]) = none := by
  by_contra! hused
  have hplaces : ((List.range (tree.entries.length + 1)).map labelOf).map
      (fun label => directory ++ [draftName name label]) ⊆ tree.entries.map (·.1) := by
    intro place hmem
    obtain ⟨label, hlabel, rfl⟩ := List.mem_map.mp hmem
    exact Tree.mem_places (by simp) (hused label hlabel)
  have hdistinct : (((List.range (tree.entries.length + 1)).map labelOf).map
      fun label => directory ++ [draftName name label]).Nodup := by
    refine List.Nodup.map ?_ (List.Nodup.map labelOf_injective List.nodup_range)
    intro label other h
    exact draftName_injective name (List.cons.inj (List.append_cancel_left h)).1
  have hlength := hdistinct.length_le_of_subset hplaces
  rw [List.length_map, List.length_map, List.length_map, List.length_range] at hlength
  omega

/-- The first free label is free. -/
theorem freeLabel_isFree : Labelling.IsFree freeLabel := by
  intro tree directory name
  obtain ⟨free, hmem, hfree⟩ := exists_free tree directory name
  have hsome : ((List.range (tree.entries.length + 1)).map labelOf).find?
      (fun label => (tree.get? (directory ++ [draftName name label])).isNone) |>.isSome := by
    rw [List.find?_isSome]
    exact ⟨free, hmem, Option.isNone_iff_eq_none.mpr hfree⟩
  obtain ⟨label, hlabel⟩ := Option.isSome_iff_exists.mp hsome
  have hnone := List.find?_some hlabel
  rw [freeLabel, hlabel]
  exact Option.isNone_iff_eq_none.mp hnone

/-! ### Opening, filling and publishing -/

theorem openDraft_ensures (labelling : Labelling) (workingDirectory : Place) (path : Path) :
    Ensures tree (openDraft labelling workingDirectory path)
      (fun draft after => ∃ directory, tree.get? directory = some .directory ∧
        draft = directory ++ [draftName path.name (labelling tree directory path.name)] ∧
        (draftName path.name (labelling tree directory path.name)).utf8ByteSize ≤ maxNameSize ∧
        after = tree.set draft (.file ByteArray.empty draftMode))
      fun _ after => after = tree := by
  unfold openDraft
  refine .bind (draftDirectory_ensures workingDirectory path) ?_
  rintro directory _ ⟨hdirectory, rfl⟩
  refine .get_bind ((createDraft_ensures directory _).imp ?_ fun _ _ h => h)
  rintro draft after ⟨rfl, hsize, rfl⟩
  exact ⟨directory, hdirectory, rfl, hsize, rfl⟩

theorem bytesOf_ensures (content : Json) :
    Ensures tree (liftM (bytesOf content) : Operation ByteArray)
      (fun bytes after => (∃ text, content = .str text ∧ bytes = text.toUTF8) ∧ after = tree)
      fun _ after => after = tree := by
  cases content with
  | str text => exact ⟨⟨text, rfl, rfl⟩, rfl⟩
  | _ => exact rfl

/-- A draft that is full: it holds the bytes of a text, and else the tree is the one
before. -/
structure Filled (before : Tree) (draft : Place) (text : String) (tree : Tree) : Prop where
  get? : ∀ place, tree.get? place =
    if place = draft then some (.file text.toUTF8 draftMode) else before.get? place

theorem fill_ensures {before : Tree} {text : String} (hdraft : draft ≠ []) :
    Ensures (before.set draft (.file ByteArray.empty draftMode)) (appendTo draft text.toUTF8)
      (fun _ after => Filled before draft text after)
      fun _ after => after = before.set draft (.file ByteArray.empty draftMode) := by
  refine (appendTo_ensures draft _).imp ?_ fun _ _ h => h
  rintro _ after ⟨content, mode, hfile, rfl⟩
  rw [Tree.get?_set _ hdraft, if_pos rfl, Option.some.injEq, Entry.file.injEq] at hfile
  obtain ⟨rfl, rfl⟩ := hfile
  refine ⟨fun place => ?_⟩
  rw [Tree.get?_set _ hdraft, Tree.get?_set _ hdraft, ByteArray.empty_append]
  by_cases hplace : place = draft
  · rw [if_pos hplace, if_pos hplace]
  · rw [if_neg hplace, if_neg hplace, if_neg hplace]

/-- What a write has done when it succeeds: the target, found with the full draft still
there, has the whole content, and everything else is as before. -/
structure Published (workingDirectory : Place) (path : Path) (content : Json) (draft : Place)
    (before after : Tree) : Prop where
  exists_target : ∃ text target filled, content = .str text ∧ Filled before draft text filled ∧
    LeadsTo filled workingDirectory path target ∧ filled.get? target ≠ some .directory ∧
    ∀ place, after.get? place =
      if place = target then some (.file text.toUTF8 draftMode) else before.get? place
  name_ne : path.name ≠ "" ∧ path.name ≠ ".."
  path_fits : path.hasNull = false ∧ path.isTooLong = false

section
variable {before : Tree} (hdraft : draft ≠ []) (hfree : before.get? draft = none)
  (workingDirectory : Place) (path : Path) (content : Json)

include hdraft hfree

/-- If filling or publishing a draft is refused, the tree differs from the one before at
the draft only. -/
theorem fillAndPublish_ensures :
    Ensures (before.set draft (.file ByteArray.empty draftMode))
      (do
        let bytes ← bytesOf content
        appendTo draft bytes
        publish workingDirectory draft path : Operation Unit)
      (fun _ after => Published workingDirectory path content draft before after)
      fun _ after => ∀ place, place ≠ draft → after.get? place = before.get? place := by
  have hopened : ∀ place, place ≠ draft →
      (before.set draft (.file ByteArray.empty draftMode)).get? place = before.get? place := by
    intro place hplace
    rw [Tree.get?_set _ hdraft, if_neg hplace]
  refine .bind ((bytesOf_ensures content).imp (fun _ _ h => h) fun _ _ h => h ▸ hopened) ?_
  rintro _ _ ⟨⟨text, rfl, rfl⟩, rfl⟩
  refine .bind ((fill_ensures hdraft).imp (fun _ _ h => h) fun _ _ h => h ▸ hopened) ?_
  rintro _ filled hfilled
  refine (publish_ensures workingDirectory draft path).imp ?_ ?_
  · rintro _ after ⟨target, entry, htarget, hempty, hback, hpath, hentry, hdirectory, rfl⟩
    have hne : target ≠ [] := by
      obtain ⟨parent, -, rfl⟩ := htarget
      simp
    have hfull : entry = .file text.toUTF8 draftMode := by
      rw [hfilled.get?, if_pos rfl] at hentry
      exact (Option.some.inj hentry).symm
    refine ⟨⟨text, target, filled, rfl, hfilled, htarget, hdirectory, fun place => ?_⟩,
      ⟨hempty, hback⟩, hpath⟩
    rw [Tree.get?_set _ hne, Tree.get?_erase _ hdraft, hfilled.get?, hfull]
    by_cases hplace : place = draft
    · rw [if_pos hplace, hplace, hfree]
    · rw [if_neg hplace, if_neg hplace]
  · rintro _ _ rfl place hplace
    rw [hfilled.get?, if_neg hplace]

/-- Filling a draft that was not there before and publishing it is all or nothing. -/
theorem publishDraft_ensures :
    Ensures (before.set draft (.file ByteArray.empty draftMode))
      (tryCatch
        (do
          let bytes ← bytesOf content
          appendTo draft bytes
          publish workingDirectory draft path : Operation Unit)
        fun fault => do
          discard draft
          throw fault)
      (fun _ after => Published workingDirectory path content draft before after)
      fun _ after => ∀ place, after.get? place = before.get? place := by
  refine .tryCatch (fillAndPublish_ensures hdraft hfree workingDirectory path content) ?_
  intro fault after hsame
  refine .bind ((discard_ensures draft).imp (fun _ _ h => h) fun _ _ h => h.elim) ?_
  rintro _ _ rfl
  refine .refuse fun place => ?_
  rw [Tree.get?_erase _ hdraft]
  by_cases hplace : place = draft
  · rw [if_pos hplace, hplace, hfree]
  · rw [if_neg hplace, hsame place hplace]

end

end Files
end ContentDecl
