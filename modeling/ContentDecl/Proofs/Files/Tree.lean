/-
# Trees as maps from places

A tree is looked at through `Tree.get?`: setting an entry changes what is found at its
place and nothing else, and so does erasing one. `Grown new before after` says that
nothing happened but that directories were made where nothing was, at places of the
kind `new`.

A tree is plain if it has no links and everything in it stands in a directory. In a
plain tree a path leads to the place that its names give with each double point taken
as one step back, if all places on the way are directories.

Key definitions: `Grown`, `Tree.Plain`.
Key theorems: `Tree.get?_set`, `Tree.get?_erase`, `walk_plain_iff`,
`directoryAt_plain_iff`.
-/
import ContentDecl.Proofs.Files.Names
import ContentDecl.Proofs.Files.Operation

namespace ContentDecl
namespace Files

variable {tree before after : Tree} {here place parent : Place} {name : String}

/-! ### Looking up after a change -/

namespace Tree

theorem get?_of_ne_nil (tree : Tree) (h : place ≠ []) :
    tree.get? place = tree.entries.lookup place := by
  rw [get?, if_neg (by simpa using h)]

theorem lookup_cons_other {place other : Place} (h : other ≠ place) (entry : Entry)
    (rest : List (Place × Entry)) : ((place, entry) :: rest).lookup other = rest.lookup other := by
  have hbeq : (other == place) = false := beq_eq_false_iff_ne.mpr h
  rw [List.lookup_cons, hbeq]

theorem lookup_filter (place other : Place) : ∀ entries : List (Place × Entry),
    (entries.filter fun entry => entry.1 != place).lookup other =
      if other = place then none else entries.lookup other
  | [] => by simp
  | (found, entry) :: rest => by
    have ih := lookup_filter place other rest
    by_cases hfound : found = place
    · rw [List.filter_cons_of_neg (by simpa using hfound), ih]
      by_cases hother : other = place
      · rw [if_pos hother, if_pos hother]
      · rw [if_neg hother, if_neg hother, lookup_cons_other (hfound ▸ hother)]
    · rw [List.filter_cons_of_pos (by simpa using hfound)]
      by_cases hother : other = found
      · rw [hother, List.lookup_cons_self, List.lookup_cons_self, if_neg hfound]
      · rw [lookup_cons_other hother, lookup_cons_other hother, ih]

/-- Erasing changes what is found at the place, and nothing else. -/
theorem get?_erase (tree : Tree) (hplace : place ≠ []) (other : Place) :
    (tree.erase place).get? other = if other = place then none else tree.get? other := by
  by_cases hnil : other = []
  · subst hnil
    rw [if_neg hplace.symm]
    rfl
  · rw [get?_of_ne_nil _ hnil, get?_of_ne_nil _ hnil, erase, lookup_filter]

/-- Setting changes what is found at the place, and nothing else. -/
theorem get?_set (tree : Tree) (hplace : place ≠ []) (entry : Entry) (other : Place) :
    (tree.set place entry).get? other = if other = place then some entry else tree.get? other := by
  by_cases hother : other = place
  · subst hother
    rw [if_pos rfl, get?_of_ne_nil _ hplace, set, List.lookup_cons_self]
  · have herase := get?_erase tree hplace other
    rw [if_neg hother] at herase ⊢
    rw [← herase]
    by_cases hnil : other = []
    · subst hnil
      rfl
    · rw [get?_of_ne_nil _ hnil, get?_of_ne_nil _ hnil, set, lookup_cons_other hother]

end Tree

/-! ### Directories that are made -/

/-- Nothing happened but that directories were made in directories, where nothing was
and at places of a kind. -/
structure Grown (new : Place → Prop) (before after : Tree) : Prop where
  entry : ∀ place, after.get? place = before.get? place ∨
    before.get? place = none ∧ after.get? place = some .directory ∧
      after.get? place.dropLast = some .directory ∧ new place

namespace Grown

variable {new new' : Place → Prop}

theorem refl (new : Place → Prop) (tree : Tree) : Grown new tree tree := ⟨fun _ => .inl rfl⟩

/-- What was there is there still. -/
theorem get?_of_some (h : Grown new before after) {entry : Entry}
    (hbefore : before.get? place = some entry) : after.get? place = some entry := by
  obtain hsame | ⟨hnone, -⟩ := h.entry place
  · rw [hsame, hbefore]
  · rw [hbefore] at hnone
    exact absurd hnone nofun

/-- What is no directory was there before. -/
theorem get?_of_ne_directory (h : Grown new before after)
    (hafter : after.get? place ≠ some .directory) : after.get? place = before.get? place := by
  obtain hsame | ⟨-, hdirectory, -⟩ := h.entry place
  · exact hsame
  · exact absurd hdirectory hafter

theorem trans {last : Tree} (h : Grown new before after) (h' : Grown new after last) :
    Grown new before last := by
  refine ⟨fun place => ?_⟩
  obtain hsame | ⟨hnone, hdirectory, hparent, hnew⟩ := h.entry place
  · rw [← hsame]
    exact h'.entry place
  · exact .inr ⟨hnone, h'.get?_of_some hdirectory, h'.get?_of_some hparent, hnew⟩

theorem mono (h : Grown new before after) (himp : ∀ place, new place → new' place) :
    Grown new' before after := by
  refine ⟨fun place => (h.entry place).imp_right ?_⟩
  rintro ⟨hnone, hdirectory, hparent, hnew⟩
  exact ⟨hnone, hdirectory, hparent, himp place hnew⟩

theorem set (hfree : tree.get? (parent ++ [name]) = none)
    (hparent : tree.get? parent = some .directory) (hnew : new (parent ++ [name])) :
    Grown new tree (tree.set (parent ++ [name]) .directory) := by
  refine ⟨fun place => ?_⟩
  rw [Tree.get?_set _ (by simp)]
  by_cases hplace : place = parent ++ [name]
  · have hne : parent ≠ parent ++ [name] := by simp
    rw [if_pos hplace, hplace, List.dropLast_concat, Tree.get?_set _ (by simp), if_neg hne]
    exact .inr ⟨hfree, rfl, hparent, hnew⟩
  · rw [if_neg hplace]
    exact .inl rfl

end Grown

/-! ### Trees without links -/

/-- A tree of directories and files: it has no links, and everything in it stands in a
directory. -/
structure Tree.Plain (tree : Tree) : Prop where
  noLink : ∀ place target, tree.get? place ≠ some (.link target)
  closed : ∀ place, tree.get? place ≠ none → tree.get? place.dropLast = some .directory

namespace Tree.Plain

theorem empty : ({} : Tree).Plain where
  noLink place target := by
    unfold get?
    split
    · simp
    · exact nofun
  closed place hne := by
    have hroot : place = [] := by
      by_cases hplace : place = []
      · exact hplace
      · rw [get?_of_ne_nil _ hplace] at hne
        exact absurd rfl hne
    rw [hroot]
    rfl

theorem congr (h : tree.Plain) (hafter : ∀ place, after.get? place = tree.get? place) :
    after.Plain where
  noLink place target := by
    rw [hafter]
    exact h.noLink place target
  closed place := by
    rw [hafter, hafter]
    exact h.closed place

theorem grown (h : before.Plain) {new : Place → Prop} (hg : Grown new before after) :
    after.Plain where
  noLink place target hlink := by
    have hsame : after.get? place = before.get? place :=
      hg.get?_of_ne_directory (by simp [hlink])
    exact h.noLink place target (hsame ▸ hlink)
  closed place hne := by
    obtain hsame | ⟨-, -, hparent, -⟩ := hg.entry place
    · exact hg.get?_of_some (h.closed place (hsame ▸ hne))
    · exact hparent

/-- With a file more, or with another file in the place of one, directories stay. -/
theorem directory_of_file {target : Place} {content : ByteArray} {mode : Nat}
    (hafter : ∀ place, after.get? place =
      if place = target then some (.file content mode) else before.get? place)
    (htarget : before.get? target ≠ some .directory)
    (hplace : before.get? place = some .directory) : after.get? place = some .directory := by
  have hne : place ≠ target := by
    rintro rfl
    exact htarget hplace
  rw [hafter, if_neg hne, hplace]

/-- A plain tree stays plain with a file more in a directory, or with another file in
the place of one. -/
theorem file (h : tree.Plain) (hparent : tree.get? parent = some .directory)
    (hplace : tree.get? (parent ++ [name]) ≠ some .directory) {content : ByteArray} {mode : Nat}
    (hafter : ∀ place, after.get? place =
      if place = parent ++ [name] then some (.file content mode) else tree.get? place) :
    after.Plain where
  noLink place target := by
    rw [hafter]
    split
    · simp
    · exact h.noLink place target
  closed place hne := by
    by_cases heq : place = parent ++ [name]
    · rw [heq, List.dropLast_concat]
      exact directory_of_file hafter hplace hparent
    · rw [hafter, if_neg heq] at hne
      exact directory_of_file hafter hplace (h.closed place hne)

end Tree.Plain

/-! ### Ways through a plain tree -/

/-- What a way over some names takes: all places on it are directories, and no name is
too long for one. -/
structure Passable (tree : Tree) (here : Place) (names : List String) : Prop where
  directory : ∀ k < names.length, tree.get? (collapse here (names.take k)) = some .directory
  size : ∀ name ∈ names, name.utf8ByteSize ≤ maxNameSize

theorem passable_nil (tree : Tree) (here : Place) : Passable tree here [] := ⟨nofun, nofun⟩

theorem passable_cons_iff {rest : List String} (hhere : tree.get? here = some .directory) :
    Passable tree here (name :: rest) ↔ name.utf8ByteSize ≤ maxNameSize ∧
      (rest = [] ∨ tree.get? (collapse here [name]) = some .directory) ∧
      Passable tree (collapse here [name]) rest := by
  constructor
  · intro h
    have hrest : ∀ k < rest.length,
        tree.get? (collapse (collapse here [name]) (rest.take k)) = some .directory := by
      intro k hk
      have hnext := h.directory (k + 1) (Nat.succ_lt_succ hk)
      rwa [List.take_succ_cons, collapse_cons] at hnext
    refine ⟨h.size name List.mem_cons_self, ?_, hrest, fun other hmem =>
      h.size other (List.mem_cons_of_mem name hmem)⟩
    cases rest with
    | nil => exact .inl rfl
    | cons next rest => exact .inr (hrest 0 (Nat.succ_pos _))
  · rintro ⟨hsize, -, hrest⟩
    refine ⟨fun k hk => ?_, List.forall_mem_cons.mpr ⟨hsize, hrest.size⟩⟩
    cases k with
    | zero => exact hhere
    | succ k =>
      rw [List.take_succ_cons, collapse_cons]
      exact hrest.directory k (Nat.lt_of_succ_lt_succ hk)

theorem passable_concat_iff {names : List String} :
    Passable tree here (names ++ [name]) ↔ Passable tree here names ∧
      tree.get? (collapse here names) = some .directory ∧ name.utf8ByteSize ≤ maxNameSize := by
  constructor
  · intro h
    refine ⟨⟨fun k hk => ?_, fun other hmem => h.size other (List.mem_append_left _ hmem)⟩, ?_,
      h.size name (by simp)⟩
    · have hbefore := h.directory k (by simp; omega)
      rwa [List.take_append_of_le_length (Nat.le_of_lt hk)] at hbefore
    · have hall := h.directory names.length (by simp)
      rwa [List.take_left] at hall
  · rintro ⟨h, hall, hsize⟩
    refine ⟨fun k hk => ?_, fun other hmem => ?_⟩
    · have hle : k ≤ names.length := by simpa [Nat.lt_succ_iff] using hk
      rw [List.take_append_of_le_length hle]
      obtain rfl | hlt := Nat.eq_or_lt_of_le hle
      · rwa [List.take_length]
      · exact h.directory k hlt
    · rcases List.mem_append.mp hmem with hmem | hmem
      · exact h.size other hmem
      · exact List.mem_singleton.mp hmem ▸ hsize

theorem Passable.mono {names : List String} (h : Passable before here names)
    (hkept : ∀ place, before.get? place = some .directory → after.get? place = some .directory) :
    Passable after here names :=
  ⟨fun k hk => hkept _ (h.directory k hk), h.size⟩

/-- The names that do not lead further, and the one that leads back, are short. -/
theorem size_of_blank (hname : name = "" ∨ name = "." ∨ name = "..") :
    name.utf8ByteSize ≤ maxNameSize := by
  rcases hname with rfl | rfl | rfl <;> decide

/-- A place that is no directory can only be the last one of a way. -/
theorem endsHere_iff {rest : List String} {failure : Failure}
    (hne : tree.get? here ≠ some .directory) :
    (if rest.isEmpty then Except.ok here else .error failure) = .ok place ↔
      place = collapse here rest ∧ (rest = [] ∨ tree.get? here = some .directory) ∧
        Passable tree here rest := by
  cases rest with
  | nil =>
    rw [List.isEmpty_nil, if_pos rfl, Except.ok.injEq, eq_comm]
    simp [passable_nil, collapse]
  | cons next rest => simp [hne]

/-- In a plain tree, names lead to the place that is their collapse, if all places on
the way are directories. -/
theorem walkUpToLink_plain_iff (h : tree.Plain) {followLast : Bool}
    {follow : Place → String → List String → Except Failure Place} :
    ∀ {here : Place} {names : List String}, tree.get? here = some .directory →
      (walkUpToLink tree followLast follow here names = .ok place ↔
        place = collapse here names ∧ Passable tree here names)
  | here, [], _ => by
    rw [walkUpToLink, Except.ok.injEq, eq_comm]
    exact (and_iff_left (passable_nil tree here)).symm
  | here, name :: rest, hhere => by
    rw [walkUpToLink, collapse_cons, passable_cons_iff hhere]
    by_cases hblank : name = "" ∨ name = "."
    · have hstay : collapse here [name] = here := collapse_blank hblank
      rw [if_pos (by simpa using hblank), hstay, walkUpToLink_plain_iff h hhere]
      have hsize := size_of_blank (hblank.imp_right .inl)
      simp [hsize, hhere]
    rw [if_neg (by simpa using hblank)]
    by_cases hback : name = ".."
    · have hup : collapse here [name] = here.dropLast := by rw [hback]; rfl
      have hdirectory : tree.get? here.dropLast = some .directory := h.closed here (by simp [hhere])
      rw [if_pos (by simpa using hback), hup, walkUpToLink_plain_iff h hdirectory]
      have hsize := size_of_blank (.inr (.inr hback))
      simp [hsize, hdirectory]
    rw [if_neg (by simpa using hback)]
    by_cases hlong : maxNameSize < name.utf8ByteSize
    · rw [if_pos hlong]
      simp [Nat.not_le.mpr hlong]
    rw [if_neg hlong]
    have hsize := Nat.le_of_not_lt hlong
    have hdown : collapse here [name] = here ++ [name] := by
      obtain ⟨hempty, hpoint⟩ := not_or.mp hblank
      exact collapse_name hempty hpoint hback
    rw [hdown, and_iff_right hsize]
    cases hfound : tree.get? (here ++ [name]) with
    | none =>
      have hne : tree.get? (here ++ [name]) ≠ some .directory := by simp [hfound]
      exact (endsHere_iff hne).trans (by rw [hfound])
    | some entry =>
      cases entry with
      | directory =>
        rw [walkUpToLink_plain_iff h hfound]
        simp
      | file content mode =>
        have hne : tree.get? (here ++ [name]) ≠ some .directory := by simp [hfound]
        exact (endsHere_iff hne).trans (by rw [hfound])
      | link target => exact absurd hfound (h.noLink _ target)

/-- The same with links counted, of which there are none. -/
theorem walk_plain_iff (h : tree.Plain) (followLast : Bool) (links : Nat) {names : List String}
    (hhere : tree.get? here = some .directory) :
    walk tree followLast links here names = .ok place ↔
      place = collapse here names ∧ Passable tree here names := by
  cases links with
  | zero => exact walkUpToLink_plain_iff h hhere
  | succ links => exact walkUpToLink_plain_iff h hhere

section WorkingDirectory

variable {workingDirectory : Place} {path : Path}

theorem get?_startOf (hwork : tree.get? workingDirectory = some .directory) (path : Path) :
    tree.get? (startOf workingDirectory path) = some .directory := by
  unfold startOf
  split
  · rfl
  · exact hwork

theorem placeOf_plain_iff (h : tree.Plain)
    (hwork : tree.get? workingDirectory = some .directory) :
    placeOf tree workingDirectory path = .ok place ↔ path.isTooLong = false ∧
      place = path.placeFrom workingDirectory ∧
      Passable tree (startOf workingDirectory path) path.parts := by
  unfold placeOf
  cases path.isTooLong with
  | true => simp
  | false =>
    rw [if_neg (by simp), walk_plain_iff h true maxLinks (get?_startOf hwork path)]
    simp [Path.placeFrom]

/-- In a plain tree, a path leads to a directory if it is short enough, all places on
the way are directories, and the last one is. -/
theorem directoryAt_plain_iff (h : tree.Plain)
    (hwork : tree.get? workingDirectory = some .directory) :
    directoryAt tree workingDirectory path = .ok place ↔ path.isTooLong = false ∧
      place = path.placeFrom workingDirectory ∧
      Passable tree (startOf workingDirectory path) path.parts ∧
      tree.get? place = some .directory := by
  constructor
  · intro hdirectory
    obtain ⟨hplace, hfound⟩ := get?_of_directoryAt hdirectory
    obtain ⟨hshort, heq, hpass⟩ := (placeOf_plain_iff h hwork).mp hplace
    exact ⟨hshort, heq, hpass, hfound⟩
  · rintro ⟨hshort, heq, hpass, hfound⟩
    rw [directoryAt, (placeOf_plain_iff h hwork).mpr ⟨hshort, heq, hpass⟩]
    simp only [bind, Except.bind, hfound]
    rfl

end WorkingDirectory

end Files
end ContentDecl
