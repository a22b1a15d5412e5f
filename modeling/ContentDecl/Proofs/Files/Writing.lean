/-
# Writing in a plain tree, once and again and again

In a plain tree, and with free names for the drafts, a write that succeeds leaves the bytes
of its text at the target, and one that is refused leaves every file as it was. In both
cases nothing else is changed, but that missing directories on the way to the target may
have been made.

So behind a whole sequence of writes, each file has the content of the last write to it
that succeeded, and the one it had at the start if there was none.

Key definitions: `KeptOrMade`, `Written`, `Request`, `Request.treeAfter`, `Untouched`.
Key theorems: `writeBy_ensures`, `Request.treeAfter_files`.
-/
import ContentDecl.Proofs.Files.Directories
import ContentDecl.Proofs.Files.Draft

namespace ContentDecl
namespace Files

open Operation

variable {tree before middle after : Tree} {workingDirectory directory draft place : Place}
  {path : Path} {content : Json}

/-! ### One write -/

/-- What is found at a place is as before, or it is a directory that was missing on the way
to a target. -/
def KeptOrMade (workingDirectory : Place) (path : Path) (before after : Tree) (place : Place) :
    Prop :=
  after.get? place = before.get? place ∨
    before.get? place = none ∧ after.get? place = some .directory ∧
      path.parent.Passes workingDirectory place

/-- What a write that succeeds leaves behind: the target is a file with the bytes of the
text, which is read back from there, all directories on the way are there, and nothing
else is changed. -/
structure Written (workingDirectory : Place) (path : Path) (text : String) (before after : Tree) :
    Prop where
  target : after.get? (path.placeFrom workingDirectory) = some (.file text.toUTF8 draftMode)
  readBack : (contentAt workingDirectory path).run.run after = (.ok text.toUTF8, after)
  way : ∀ place, path.parent.Passes workingDirectory place → after.get? place = some .directory
  others : ∀ place, place ≠ path.placeFrom workingDirectory →
    KeptOrMade workingDirectory path before after place

/-- A full draft in a plain tree leaves it plain. -/
theorem Filled.plainAt {name text : String} (hplain : before.PlainAt workingDirectory)
    (hdirectory : before.get? directory = some .directory)
    (hfree : before.get? (directory ++ [name]) = none)
    (h : Filled before (directory ++ [name]) text tree) : tree.PlainAt workingDirectory := by
  refine ⟨hplain.plain.file hdirectory (by simp [hfree]) h.get?, ?_⟩
  have hne : workingDirectory ≠ directory ++ [name] := by
    intro heq
    rw [← heq, hplain.work] at hfree
    exact absurd hfree nofun
  rw [h.get?, if_neg hne, hplain.work]

/-- Publishing in a plain tree, in which the path leads to its parent. -/
theorem Published.written {label : String} (hplain : before.PlainAt workingDirectory)
    (hclean : path.IsClean) (hdirectory : before.get? directory = some .directory)
    (hfree : before.get? (directory ++ [draftName path.name label]) = none)
    (hsize : (draftName path.name label).utf8ByteSize ≤ maxNameSize)
    {parent : Place} (hleads : LeadsDown workingDirectory path.parent parent before)
    (h : Published workingDirectory path content (directory ++ [draftName path.name label])
      before after) :
    (∃ text, content = .str text ∧ Written workingDirectory path text before after) ∧
      after.PlainAt workingDirectory := by
  obtain ⟨text, target, filled, rfl, hfilled, htarget, hfile, hafter⟩ := h.exists_target
  obtain ⟨found, hfound, rfl⟩ := htarget
  have hparts : path.parts ≠ [] := Path.parts_ne_nil_of_name h.name_ne.1
  -- the draft does not change where the target is found
  have hfilledPlain := hfilled.plainAt hplain hdirectory hfree
  obtain ⟨-, hplace, -⟩ := (directoryAt_plain_iff hfilledPlain.plain hfilledPlain.work).mp hfound
  have hparent : before.get? found = some .directory := by
    rw [hplace, ← hleads.place_eq]
    exact hleads.directory
  have htarget : path.placeFrom workingDirectory = found ++ [path.name] := by
    rw [Path.placeFrom_eq hclean hparts h.name_ne.2, hplace]
  have hnotDirectory : before.get? (found ++ [path.name]) ≠ some .directory := by
    rw [hfilled.get?] at hfile
    split at hfile
    · rename_i heq
      simp [heq, hfree]
    · exact hfile
  have hkept : ∀ place, before.get? place = some .directory → after.get? place = some .directory :=
    fun _ => Tree.Plain.directory_of_file hafter hnotDirectory
  have hafterPlain : after.PlainAt workingDirectory :=
    ⟨hplain.plain.file hparent hnotDirectory hafter, hkept _ hplain.work⟩
  have hwritten : after.get? (path.placeFrom workingDirectory) =
      some (.file text.toUTF8 draftMode) := by
    rw [hafter, if_pos htarget]
  have hpass : Passable before (startOf workingDirectory path) path.parts := by
    rw [Path.parts_eq hparts]
    refine passable_concat_iff.mpr ⟨hleads.passable, ?_, ?_⟩
    · rw [hplace] at hparent
      exact hparent
    · have hname := size_le_draftName path.name label
      omega
  have hreach : placeOf after workingDirectory path = .ok (path.placeFrom workingDirectory) :=
    (placeOf_plain_iff hafterPlain.plain hafterPlain.work).mpr
      ⟨h.path_fits.2, rfl, hpass.mono hkept⟩
  refine ⟨⟨text, rfl, hwritten, run_contentAt h.path_fits.1 hreach hwritten, ?_, ?_⟩, hafterPlain⟩
  · intro place hpasses
    refine hkept place (Path.get?_of_passes hleads.passable ?_ hpasses)
    rw [← hleads.place_eq]
    exact hleads.directory
  · intro place hne
    rw [htarget] at hne
    exact .inl (by rw [hafter, if_neg hne])

theorem Grown.keptOrMade (h : Grown (path.parent.Passes workingDirectory) before after)
    (place : Place) : KeptOrMade workingDirectory path before after place :=
  (h.entry place).imp_right fun ⟨hnone, hdirectory, _, hpasses⟩ => ⟨hnone, hdirectory, hpasses⟩

theorem Written.of_grown {text : String}
    (hgrown : Grown (path.parent.Passes workingDirectory) before middle)
    (h : Written workingDirectory path text middle after) :
    Written workingDirectory path text before after := by
  refine ⟨h.target, h.readBack, h.way, fun place hne => ?_⟩
  obtain hsame | ⟨hnone, hdirectory, hpasses⟩ := h.others place hne
  · unfold KeptOrMade
    rw [hsame]
    exact hgrown.keptOrMade place
  · obtain hsame | ⟨-, hmade, -⟩ := hgrown.entry place
    · exact .inr ⟨hsame ▸ hnone, hdirectory, hpasses⟩
    · rw [hmade] at hnone
      exact absurd hnone nofun

/-- **A write succeeds with all of its content or changes no file.** -/
theorem writeBy_ensures {labelling : Labelling} (hplain : tree.PlainAt workingDirectory)
    (hclean : path.IsClean) (hfree : labelling.IsFree) (content : Json) :
    Ensures tree (writeBy labelling workingDirectory path content)
      (fun _ after => (∃ text, content = .str text ∧
        Written workingDirectory path text tree after) ∧ after.PlainAt workingDirectory)
      fun _ after => (∀ place, KeptOrMade workingDirectory path tree after place) ∧
        after.PlainAt workingDirectory := by
  unfold writeBy
  have hrule := makesWay_plain workingDirectory
  refine .bind ((hrule.ensureDirectory_ensures ⟨hclean.parent, hplain⟩).imp (fun _ _ h => h) ?_) ?_
  · exact fun fault after hgrown => ⟨hgrown.keptOrMade, hplain.grown hgrown⟩
  rintro parent middle ⟨hgrown, hleads⟩
  have hmiddle := hplain.grown hgrown
  refine .bind ((openDraft_ensures labelling workingDirectory path).imp (fun _ _ h => h) ?_) ?_
  · rintro _ _ rfl
    exact ⟨hgrown.keptOrMade, hmiddle⟩
  rintro _ _ ⟨directory, hdirectory, rfl, hsize, rfl⟩
  have hnone := hfree middle directory path.name
  refine (publishDraft_ensures (by simp) hnone workingDirectory path content).imp ?_ ?_
  · intro _ after hpublished
    obtain ⟨⟨text, htext, hwritten⟩, hafter⟩ :=
      hpublished.written hmiddle hclean hdirectory hnone hsize hleads
    exact ⟨⟨text, htext, hwritten.of_grown hgrown⟩, hafter⟩
  · intro _ after hsame
    refine ⟨fun place => ?_, hmiddle.plain.congr hsame, ?_⟩
    · unfold KeptOrMade
      rw [hsame]
      exact hgrown.keptOrMade place
    · rw [hsame, hmiddle.work]

/-! ### One write after another -/

/-- A write that is asked for, with the choice of its draft's label. -/
structure Request where
  path : String
  content : Json
  labelling : Labelling := freeLabel

namespace Request

variable {requests earlier later : List Request} {request : Request}

def write (workingDirectory : Place) (request : Request) : Operation Unit :=
  writeBy request.labelling workingDirectory (.ofString request.path) request.content

/-- The place that the path of a write means. -/
def target (workingDirectory : Place) (request : Request) : Place :=
  (Path.ofString request.path).placeFrom workingDirectory

def Succeeds (workingDirectory : Place) (tree : Tree) (request : Request) : Prop :=
  ((request.write workingDirectory).run.run tree).1.isOk

instance (workingDirectory : Place) (tree : Tree) (request : Request) :
    Decidable (request.Succeeds workingDirectory tree) :=
  inferInstanceAs (Decidable (_ = true))

/-- The tree behind a write, which may be refused. -/
def behind (workingDirectory : Place) (tree : Tree) (request : Request) : Tree :=
  ((request.write workingDirectory).run.run tree).2

/-- The tree behind a sequence of writes. -/
def treeAfter (workingDirectory : Place) (tree : Tree) (requests : List Request) : Tree :=
  requests.foldl (Request.behind workingDirectory) tree

/-- No write of a sequence succeeds at a place. -/
def Untouched (workingDirectory : Place) (tree : Tree) (requests : List Request) (place : Place) :
    Prop :=
  ∀ earlier request later, requests = earlier ++ request :: later →
    request.Succeeds workingDirectory (treeAfter workingDirectory tree earlier) →
      request.target workingDirectory ≠ place

theorem treeAfter_append (earlier later : List Request) :
    treeAfter workingDirectory tree (earlier ++ later) =
      treeAfter workingDirectory (treeAfter workingDirectory tree earlier) later :=
  List.foldl_append

theorem untouched_nil : Untouched workingDirectory tree [] place := by
  intro earlier request later hsplit
  exact absurd hsplit (by simp)

theorem untouched_cons_iff {rest : List Request} :
    Untouched workingDirectory tree (request :: rest) place ↔
      (request.Succeeds workingDirectory tree → request.target workingDirectory ≠ place) ∧
        Untouched workingDirectory (request.behind workingDirectory tree) rest place := by
  constructor
  · intro h
    refine ⟨h [] request rest rfl, fun earlier next later hsplit => ?_⟩
    exact h (request :: earlier) next later (by rw [hsplit, List.cons_append])
  · rintro ⟨hfirst, hrest⟩ earlier next later hsplit
    cases earlier with
    | nil =>
      obtain ⟨rfl, rfl⟩ := List.cons.inj hsplit
      exact hfirst
    | cons first earlier =>
      obtain ⟨rfl, htail⟩ := List.cons.inj hsplit
      exact hrest earlier next later htail

theorem behind_ensures (hplain : tree.PlainAt workingDirectory)
    (hfree : request.labelling.IsFree) :
    ((request.Succeeds workingDirectory tree → ∃ text, request.content = .str text ∧
        Written workingDirectory (.ofString request.path) text tree
          (request.behind workingDirectory tree)) ∧
      (¬request.Succeeds workingDirectory tree → ∀ place,
        KeptOrMade workingDirectory (.ofString request.path) tree
          (request.behind workingDirectory tree) place)) ∧
      (request.behind workingDirectory tree).PlainAt workingDirectory := by
  have hensures := writeBy_ensures hplain (Path.isClean_ofString request.path) hfree request.content
  unfold Succeeds Request.behind
  rcases hrun : (request.write workingDirectory).run.run tree with ⟨fault | ⟨⟩, after⟩
  · obtain ⟨hkept, hafter⟩ := hensures.of_error hrun
    exact ⟨⟨nofun, fun _ => hkept⟩, hafter⟩
  · obtain ⟨hwritten, hafter⟩ := hensures.of_ok hrun
    exact ⟨⟨fun _ => hwritten, fun hne => absurd (by rfl) hne⟩, hafter⟩

/-- A file is still there, or still not there, where no write succeeds. -/
theorem file_of_keptOrMade {bytes : ByteArray} {mode : Nat}
    (h : KeptOrMade workingDirectory path before after place) :
    after.get? place = some (.file bytes mode) ↔ before.get? place = some (.file bytes mode) := by
  obtain hsame | ⟨hnone, hdirectory, -⟩ := h
  · rw [hsame]
  · simp [hnone, hdirectory]

theorem treeAfter_plain (hplain : tree.PlainAt workingDirectory)
    (hfree : ∀ request ∈ requests, request.labelling.IsFree) :
    (treeAfter workingDirectory tree requests).PlainAt workingDirectory := by
  induction requests generalizing tree with
  | nil => exact hplain
  | cons request rest ih =>
    obtain ⟨hfirst, hrest⟩ := List.forall_mem_cons.mp hfree
    exact ih (behind_ensures hplain hfirst).2 hrest

/-- Where no write succeeds, the files stay what they are. -/
theorem treeAfter_untouched {bytes : ByteArray} {mode : Nat}
    (hplain : tree.PlainAt workingDirectory)
    (hfree : ∀ request ∈ requests, request.labelling.IsFree)
    (huntouched : Untouched workingDirectory tree requests place) :
    (treeAfter workingDirectory tree requests).get? place = some (.file bytes mode) ↔
      tree.get? place = some (.file bytes mode) := by
  induction requests generalizing tree with
  | nil => rfl
  | cons request rest ih =>
    obtain ⟨hfirst, hrest⟩ := List.forall_mem_cons.mp hfree
    obtain ⟨⟨hsucceeds, hrefused⟩, hafter⟩ := behind_ensures hplain hfirst
    obtain ⟨huntouched, huntouchedRest⟩ := untouched_cons_iff.mp huntouched
    have hkept : KeptOrMade workingDirectory (.ofString request.path) tree
        (request.behind workingDirectory tree) place := by
      by_cases hdone : request.Succeeds workingDirectory tree
      · obtain ⟨text, -, hwritten⟩ := hsucceeds hdone
        exact hwritten.others place (huntouched hdone).symm
      · exact hrefused hdone place
    exact (ih hafter hrest huntouchedRest).trans (file_of_keptOrMade hkept)

/-- **Behind a sequence of writes, each file has the content of the last one to it that
succeeded.** Every write of the sequence either leaves all of its content at its target,
or leaves every file as it was. -/
theorem treeAfter_files (hplain : tree.Plain)
    (hwork : tree.get? workingDirectory = some .directory)
    (hfree : ∀ request ∈ requests, request.labelling.IsFree) :
    (∀ earlier request later, requests = earlier ++ request :: later →
      let before := treeAfter workingDirectory tree earlier
      let after := treeAfter workingDirectory tree (earlier ++ [request])
      (request.Succeeds workingDirectory before → ∃ text, request.content = .str text ∧
        Written workingDirectory (.ofString request.path) text before after) ∧
      (¬request.Succeeds workingDirectory before → ∀ place,
        KeptOrMade workingDirectory (.ofString request.path) before after place)) ∧
    (∀ place bytes mode, Untouched workingDirectory tree requests place →
      ((treeAfter workingDirectory tree requests).get? place = some (.file bytes mode) ↔
        tree.get? place = some (.file bytes mode))) ∧
    ∀ earlier request later text, requests = earlier ++ request :: later →
      request.content = .str text →
      request.Succeeds workingDirectory (treeAfter workingDirectory tree earlier) →
      Untouched workingDirectory (treeAfter workingDirectory tree (earlier ++ [request])) later
        (request.target workingDirectory) →
      (treeAfter workingDirectory tree requests).get? (request.target workingDirectory) =
        some (.file text.toUTF8 draftMode) := by
  have hone : ∀ earlier request later, requests = earlier ++ request :: later →
      _ := fun earlier request later hsplit =>
    behind_ensures (treeAfter_plain ⟨hplain, hwork⟩ fun other hmem =>
      hfree other (hsplit ▸ List.mem_append_left _ hmem))
      (hfree request (hsplit ▸ List.mem_append_right _ List.mem_cons_self))
  refine ⟨fun earlier request later hsplit => ?_, fun place bytes mode huntouched => ?_, ?_⟩
  · rw [treeAfter_append]
    exact (hone earlier request later hsplit).1
  · exact treeAfter_untouched ⟨hplain, hwork⟩ hfree huntouched
  · intro earlier request later text hsplit htext hsucceeds huntouched
    obtain ⟨⟨hdone, -⟩, hafter⟩ := hone earlier request later hsplit
    obtain ⟨written, hwritten, hfile⟩ := hdone hsucceeds
    have hsame : text = written := by
      rw [htext] at hwritten
      exact Json.str.inj hwritten
    rw [treeAfter_append] at huntouched
    have hlater : ∀ other ∈ later, other.labelling.IsFree := fun other hmem =>
      hfree other (hsplit ▸ List.mem_append_right _ (List.mem_cons_of_mem _ hmem))
    rw [hsplit, List.append_cons, treeAfter_append, treeAfter_append]
    exact (treeAfter_untouched hafter hlater huntouched).mpr (hsame ▸ hfile.target)

/-- A tree with one file, and three writes to it: the second one is refused, since its
target has become a directory, and the third one goes to the same place as the first. -/
def notesTree : Tree := ({} : Tree).set ["notes"] (.file "n".toUTF8 defaultMode)

def blogRequests : List Request :=
  [{ path := "types/blog.d.ts", content := .str "a\r\n" },
    { path := "types", content := .str "b\n" },
    { path := "types/../types/./blog.d.ts", content := .str "c\r\n" }]

theorem notesTree_plain : notesTree.Plain :=
  @Tree.Plain.file {} notesTree [] "notes" .empty rfl nofun _ _ fun place =>
    Tree.get?_set _ (by decide) _ place

theorem blogRequests_files :
    (treeAfter [] notesTree blogRequests).get? ["types", "blog.d.ts"] =
        some (.file "c\r\n".toUTF8 draftMode) ∧
      (treeAfter [] notesTree blogRequests).get? ["notes"] =
        some (.file "n".toUTF8 defaultMode) := by
  have hfree : ∀ request ∈ blogRequests, request.labelling.IsFree := by
    simp [blogRequests, freeLabel_isFree]
  obtain ⟨-, huntouched, hlast⟩ :=
    @treeAfter_files notesTree [] blogRequests notesTree_plain rfl hfree
  constructor
  · have hsucceeds : blogRequests[2].Succeeds [] (treeAfter [] notesTree (blogRequests.take 2)) := by
      decide +kernel
    have htarget : blogRequests[2].target [] = ["types", "blog.d.ts"] := by decide +kernel
    rw [← htarget]
    exact hlast (blogRequests.take 2) blogRequests[2] [] "c\r\n" rfl rfl hsucceeds untouched_nil
  · refine (huntouched ["notes"] _ _ ?_).mpr rfl
    simp only [blogRequests, untouched_cons_iff]
    refine ⟨fun _ => ?_, fun _ => ?_, fun _ => ?_, untouched_nil⟩ <;> decide +kernel

end Request

end Files
end ContentDecl
