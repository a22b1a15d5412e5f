/-
# Making the directories on the way to a path

`ensureDirectory` tries the last directory first and goes back one name at a time until
one can be made. Whatever is carried along by a single directory that is made, and holds
of a directory that is there, is carried along by all of it: this is `MakesWay`, and
the only induction over the depth.

In a plain tree, directories are made only at places that the path passes, and the place
that comes out is the one the path means.

Key definitions: `MakesWay`, `Tree.PlainAt`, `LeadsDown`.
Key theorems: `MakesWay.ensureDirectory_ensures`, `makesWay_plain`.
-/
import ContentDecl.Proofs.Files.Tree

namespace ContentDecl
namespace Files

open Operation

variable {tree before after : Tree} {workingDirectory place : Place} {path : Path}

/-- All places that a passable path passes are directories. -/
theorem Path.get?_of_passes (hpass : Passable tree (startOf workingDirectory path) path.parts)
    (hlast : tree.get? (path.placeFrom workingDirectory) = some .directory)
    (h : path.Passes workingDirectory place) : tree.get? place = some .directory := by
  obtain ⟨k, hk, rfl⟩ := h
  obtain rfl | hlt := Nat.eq_or_lt_of_le hk
  · rwa [List.take_length]
  · exact hpass.directory k hlt

/-! ### One directory after another -/

/-- A directory that cannot be made may be there. -/
theorem orExisting_ensures {made : Operation Place} {ok : Place → Tree → Prop}
    {refused : Fault → Tree → Prop} (h : Ensures tree made ok refused) :
    Ensures tree (orExisting workingDirectory path made)
      (fun place after => ok place after ∨
        (∃ fault, refused fault after) ∧ directoryAt after workingDirectory path = .ok place)
      refused := by
  unfold orExisting
  refine .tryCatch (h.imp (fun _ _ h => .inl h) fun _ _ h => h) fun fault after hrefused => ?_
  cases fault with
  | file failure =>
    cases failure with
    | notFound => exact .refuse hrefused
    | _ =>
      refine .get_bind ?_
      split
      · exact .pure (.inr ⟨⟨_, hrefused⟩, ‹_›⟩)
      · exact .refuse hrefused
  | _ => exact .refuse hrefused

/-- What is carried along when directories are made on the way to a path: where the path
`fits` the tree, the tree `grows`, and the path `leads` to the place that comes out. -/
structure MakesWay (workingDirectory : Place) (fits : Path → Tree → Prop)
    (grows : Path → Tree → Tree → Prop) (leads : Path → Place → Tree → Prop) : Prop where
  refl : ∀ path tree, grows path tree tree
  trans : ∀ {path : Path} {first second third : Tree},
    grows path first second → grows path second third → grows path first third
  ofParent : ∀ {path : Path} {before after : Tree},
    grows path.parent before after → grows path before after
  fitsParent : ∀ {path : Path} {tree : Tree}, fits path tree → fits path.parent tree
  fitsAfter : ∀ {path : Path} {before after : Tree},
    fits path before → grows path before after → fits path after
  existing : ∀ {path : Path} {place : Place} {tree : Tree}, fits path tree →
    directoryAt tree workingDirectory path = .ok place → leads path place tree
  make : ∀ {path : Path} {parent : Place} {tree : Tree}, fits path tree → path.parts ≠ [] →
    leads path.parent parent tree → CanBeMade tree parent path.name →
      grows path tree (tree.set (parent ++ [path.name]) .directory) ∧
        leads path (parent ++ [path.name]) (tree.set (parent ++ [path.name]) .directory)

namespace MakesWay

variable {fits : Path → Tree → Prop} {grows : Path → Tree → Tree → Prop}
  {leads : Path → Place → Tree → Prop}

theorem makeDirectory_ensures (h : MakesWay workingDirectory fits grows leads)
    (hfits : fits path tree) :
    Ensures tree (orExisting workingDirectory path (makeDirectory workingDirectory path))
      (fun place after => grows path tree after ∧ leads path place after)
      fun fault after => (fault = .file .notFound → path.parts ≠ []) ∧ after = tree := by
  refine (orExisting_ensures (Files.makeDirectory_ensures workingDirectory path)).imp ?_
    fun _ _ h => h
  rintro place after (⟨hparts, parent, hparent, rfl, hmade, rfl⟩ | ⟨⟨_, -, rfl⟩, hthere⟩)
  · exact h.make hfits hparts (h.existing (h.fitsParent hfits) hparent) hmade
  · exact ⟨h.refl path _, h.existing hfits hthere⟩

theorem makeIn_ensures (h : MakesWay workingDirectory fits grows leads) (hfits : fits path tree)
    {parent : Place} (hparts : path.parts ≠ []) (hparent : leads path.parent parent tree) :
    Ensures tree (orExisting workingDirectory path (makeIn parent path.name))
      (fun place after => grows path tree after ∧ leads path place after)
      fun _ after => after = tree := by
  refine (orExisting_ensures (Files.makeIn_ensures parent path.name)).imp ?_ fun _ _ h => h
  rintro place after (⟨rfl, hmade, rfl⟩ | ⟨⟨_, rfl⟩, hthere⟩)
  · exact h.make hfits hparts hparent hmade
  · exact ⟨h.refl path _, h.existing hfits hthere⟩

theorem ensureWithin_ensures (h : MakesWay workingDirectory fits grows leads) (depth : Nat)
    (hfits : fits path tree) :
    Ensures tree (ensureWithin workingDirectory depth path)
      (fun place after => grows path tree after ∧ leads path place after)
      fun _ after => grows path tree after := by
  induction depth generalizing path tree with
  | zero =>
    refine (h.makeDirectory_ensures hfits).imp (fun _ _ h => h) ?_
    rintro _ _ ⟨-, rfl⟩
    exact h.refl path _
  | succ depth ih =>
    refine .tryCatch (h.makeDirectory_ensures hfits) ?_
    rintro fault _ ⟨hparts, rfl⟩
    by_cases hfault : fault = .file .notFound
    · subst hfault
      refine .bind ((ih (h.fitsParent hfits)).imp (fun _ _ h => h) fun _ _ => h.ofParent) ?_
      rintro parent middle ⟨hgrown, hparent⟩
      have hgrown := h.ofParent hgrown
      refine (h.makeIn_ensures (h.fitsAfter hfits hgrown) (hparts rfl) hparent).imp ?_ ?_
      · exact fun place after hmade => ⟨h.trans hgrown hmade.1, hmade.2⟩
      · rintro _ _ rfl
        exact hgrown
    · split
      · exact absurd rfl hfault
      · exact .refuse (h.refl path _)

/-- What is carried along by one directory is carried along by all on the way. -/
theorem ensureDirectory_ensures (h : MakesWay workingDirectory fits grows leads)
    (hfits : fits path tree) :
    Ensures tree (ensureDirectory workingDirectory path)
      (fun place after => grows path tree after ∧ leads path place after)
      fun _ after => grows path tree after :=
  h.ensureWithin_ensures path.parts.length hfits

end MakesWay

/-! ### In a plain tree -/

/-- A plain tree in which the working directory is a directory. -/
structure Tree.PlainAt (tree : Tree) (workingDirectory : Place) : Prop where
  plain : tree.Plain
  work : tree.get? workingDirectory = some .directory

theorem Tree.PlainAt.grown {new : Place → Prop} (h : before.PlainAt workingDirectory)
    (hg : Grown new before after) : after.PlainAt workingDirectory :=
  ⟨h.plain.grown hg, hg.get?_of_some h.work⟩

/-- A path leads, over directories, to a directory at the place that it means. -/
structure LeadsDown (workingDirectory : Place) (path : Path) (place : Place) (tree : Tree) :
    Prop where
  place_eq : place = path.placeFrom workingDirectory
  passable : Passable tree (startOf workingDirectory path) path.parts
  directory : tree.get? place = some .directory

/-- In a plain tree the directories that are made are at places that the path passes, and
the path leads down to the last one. -/
theorem makesWay_plain (workingDirectory : Place) :
    MakesWay workingDirectory (fun path tree => path.IsClean ∧ tree.PlainAt workingDirectory)
      (fun path => Grown (path.Passes workingDirectory)) (LeadsDown workingDirectory) where
  refl _ tree := .refl _ tree
  trans := Grown.trans
  ofParent hgrown := hgrown.mono fun _ h => h.of_parent
  fitsParent hfits := ⟨hfits.1.parent, hfits.2⟩
  fitsAfter hfits hgrown := ⟨hfits.1, hfits.2.grown hgrown⟩
  existing hfits hthere := by
    obtain ⟨-, hplace, hpass, hdirectory⟩ :=
      (directoryAt_plain_iff hfits.2.plain hfits.2.work).mp hthere
    exact ⟨hplace, hpass, hdirectory⟩
  make := by
    intro path parent tree ⟨hclean, _⟩ hparts hparent hmade
    have hplace : parent ++ [path.name] = path.placeFrom workingDirectory := by
      rw [Path.placeFrom_eq hclean hparts hmade.ne_back, hparent.place_eq]
    have hgrown : Grown (path.Passes workingDirectory) tree
        (tree.set (parent ++ [path.name]) .directory) :=
      .set hmade.free hparent.directory (hplace ▸ path.passes_placeFrom _)
    have hdirectory : tree.get? (path.parent.placeFrom workingDirectory) = some .directory := by
      rw [← hparent.place_eq]
      exact hparent.directory
    refine ⟨hgrown, hplace, ?_, ?_⟩
    · rw [Path.parts_eq hparts]
      refine (passable_concat_iff.mpr ⟨hparent.passable, hdirectory, hmade.size⟩).mono ?_
      exact fun _ => hgrown.get?_of_some
    · rw [Tree.get?_set _ (by simp), if_pos rfl]

end Files
end ContentDecl
