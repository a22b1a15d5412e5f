/-
# Several writers at once

Any number of writers write at the same time, also to the same target, and their steps may
come in any order. Each step is one operation of a write: a directory is made, a draft is
opened under a name of its own, some more of the bytes are appended to it, it takes the
target's place, or it is removed after a failure. A writer may be killed between any two
steps, and its draft is left then.

What carries through all steps is that a draft belongs to one writer, is no target, and
holds what its writer has written so far; so only the publishing of a full draft touches a
target, and no reader of a target sees a part of a text.

Key definitions: `Writers`, `Phase`, `Step`, `Reachable`, `Writers.IsTarget`, `Invariant`.
Key theorems: `Step.moves`, `Moves.invariant`, `Reachable.writeBy`,
`Reachable.never_truncated`.
-/
import ContentDecl.Proofs.Files.Directories
import ContentDecl.Proofs.Files.Draft
import ContentDecl.Proofs.Files.Links
import Mathlib.Logic.Function.Basic

namespace ContentDecl
namespace Files

open Operation

/-! ### The system -/

/-- A write that is asked for. -/
structure Writer where
  path : Path
  text : String

def Writer.bytes (writer : Writer) : ByteArray := writer.text.toUTF8

/-- Writers, the tree they find, and where their paths start. -/
structure Writers (ι : Type) where
  start : Tree
  workingDirectory : Place
  writer : ι → Writer

/-- How far a write is. -/
inductive Phase where
  /-- The directories on the way to the target are being made. -/
  | preparing
  | opening
  /-- The rest of the bytes is still to be appended to the draft. -/
  | filling (draft : Place) (rest : ByteArray)
  /-- All bytes are in the draft, and it is closed. -/
  | full (draft : Place)
  /-- Something went wrong when there was a draft already. -/
  | failed (draft : Place)
  | published (target : Place)
  | stopped

/-- The draft of a write that is under way. -/
def Phase.draft? : Phase → Option Place
  | filling draft _ => some draft
  | full draft => some draft
  | failed draft => some draft
  | _ => none

structure State (ι : Type) where
  tree : Tree
  phase : ι → Phase

variable {ι : Type}

section
variable [DecidableEq ι] (s : State ι) {i j : ι} (tree : Tree) (phase : Phase)

/-- The state behind a step of one writer. -/
def State.put (s : State ι) (i : ι) (tree : Tree) (phase : Phase) : State ι :=
  { tree, phase := Function.update s.phase i phase }

@[simp] theorem State.put_tree : (s.put i tree phase).tree = tree := rfl

@[simp] theorem State.put_phase_self : (s.put i tree phase).phase i = phase := by
  simp [State.put]

@[simp] theorem State.put_put (tree' : Tree) (phase' : Phase) :
    (s.put i tree phase).put i tree' phase' = s.put i tree' phase' := by
  simp [State.put]

theorem State.put_phase_other (hne : j ≠ i) : (s.put i tree phase).phase j = s.phase j := by
  simp [State.put, hne]

end

namespace Writers

/-- The place to which the path of a writer leads, once the directories on the way to it are
there. -/
def IsTargetOf (w : Writers ι) (i : ι) (place : Place) : Prop :=
  ∃ tree, KeepsLinks w.start tree ∧ LeadsTo tree w.workingDirectory (w.writer i).path place

def IsTarget (w : Writers ι) (place : Place) : Prop := ∃ i, w.IsTargetOf i place

/-- A writer has one target, whatever directories are there by now. -/
theorem IsTargetOf.unique {w : Writers ι} {i : ι} {place place' : Place}
    (h : w.IsTargetOf i place) (h' : w.IsTargetOf i place') : place = place' := by
  obtain ⟨tree, hkeeps, parent, hparent, rfl⟩ := h
  obtain ⟨tree', hkeeps', parent', hparent', rfl⟩ := h'
  rw [directoryAt_unique hkeeps hkeeps' hparent hparent']

/-- All writers are about to begin. -/
def initial (w : Writers ι) : State ι := { tree := w.start, phase := fun _ => .preparing }

end Writers

variable {w : Writers ι} {s s' : State ι} {i : ι}

/-- One step of one writer. The name of a draft is not in use, and no target has it. -/
inductive Step [DecidableEq ι] (w : Writers ι) (i : ι) (s : State ι) : State ι → Prop
  | makesDirectory {parent place : Place} {name : String} {after : Tree} :
      s.phase i = .preparing → s.tree.get? parent = some .directory →
      (makeIn parent name).run.run s.tree = (.ok place, after) →
      Step w i s (s.put i after .preparing)
  | hasDirectories : s.phase i = .preparing → Step w i s (s.put i s.tree .opening)
  | opens {labelling : Labelling} {draft : Place} {after : Tree} :
      s.phase i = .opening →
      (openDraft labelling w.workingDirectory (w.writer i).path).run.run s.tree =
        (.ok draft, after) →
      s.tree.get? draft = none → ¬w.IsTarget draft →
      Step w i s (s.put i after (.filling draft (w.writer i).bytes))
  | appends {draft : Place} {chunk rest : ByteArray} {after : Tree} :
      s.phase i = .filling draft (chunk ++ rest) →
      (appendTo draft chunk).run.run s.tree = (.ok (), after) →
      Step w i s (s.put i after (.filling draft rest))
  | closes {draft : Place} :
      s.phase i = .filling draft ByteArray.empty → Step w i s (s.put i s.tree (.full draft))
  | publishes {draft target : Place} {after : Tree} :
      s.phase i = .full draft →
      LeadsTo s.tree w.workingDirectory (w.writer i).path target →
      (publish w.workingDirectory draft (w.writer i).path).run.run s.tree = (.ok (), after) →
      Step w i s (s.put i after (.published target))
  | fails {draft : Place} :
      (s.phase i).draft? = some draft → Step w i s (s.put i s.tree (.failed draft))
  | discards {draft : Place} {after : Tree} :
      s.phase i = .failed draft → (discard draft).run.run s.tree = (.ok (), after) →
      Step w i s (s.put i after .stopped)
  /-- A writer is killed, or has been refused what it needs before there is a draft. -/
  | stops : (∀ target, s.phase i ≠ .published target) → Step w i s (s.put i s.tree .stopped)

/-- The states behind any steps of any writers. -/
inductive Reachable [DecidableEq ι] (w : Writers ι) : State ι → Prop
  | initial : Reachable w w.initial
  | step {s s' : State ι} {i : ι} : Reachable w s → Step w i s s' → Reachable w s'

/-! ### What carries through all steps -/

/-- What has to be in the draft of a write. -/
def Phase.Fits (found bytes : ByteArray) : Phase → Prop
  | filling _ rest => found ++ rest = bytes
  | full _ => found = bytes
  | _ => True

/-- The draft of a write is a file, with what it has to hold. -/
def Phase.Holds (tree : Tree) (bytes : ByteArray) (phase : Phase) : Prop :=
  ∀ draft, phase.draft? = some draft →
    ∃ found mode, tree.get? draft = some (.file found mode) ∧ phase.Fits found bytes

/-- A place of which a writer may make a draft: it is no target, and neither a file nor a
link was there at the start. -/
structure Writers.IsPrivate (w : Writers ι) (place : Place) : Prop where
  ne_root : place ≠ []
  noTarget : ¬w.IsTarget place
  original : ∀ entry, w.start.get? place = some entry → entry = .directory

/-- What holds in every state that can be reached. -/
structure Invariant (w : Writers ι) (s : State ι) : Prop where
  links : KeepsLinks w.start s.tree
  files : ∀ place bytes mode, w.start.get? place = some (.file bytes mode) →
    ∃ bytes' mode', s.tree.get? place = some (.file bytes' mode')
  drafts : ∀ i draft, (s.phase i).draft? = some draft → w.IsPrivate draft
  holds : ∀ i, (s.phase i).Holds s.tree (w.writer i).bytes
  apart : ∀ i j draft, (s.phase i).draft? = some draft → (s.phase j).draft? = some draft → i = j
  targets : ∀ place bytes mode, w.IsTarget place → s.tree.get? place = some (.file bytes mode) →
    w.start.get? place = some (.file bytes mode) ∨
      ∃ j, w.IsTargetOf j place ∧ s.phase j = .published place ∧ bytes = (w.writer j).bytes

theorem Writers.initial_invariant (w : Writers ι) : Invariant w w.initial where
  links := ⟨fun _ _ h => h, fun _ _ h => .inl h⟩
  files _ bytes mode h := ⟨bytes, mode, h⟩
  drafts _ _ := nofun
  holds _ _ := nofun
  apart _ _ _ := nofun
  targets _ _ _ _ h := .inl h

/-! ### What one step does -/

/-- What a step of a writer can do to a place: nothing; make a directory; something to its
own draft; or publish. -/
inductive Change (w : Writers ι) (i : ι) (s s' : State ι) (place : Place) : Prop
  | same : s'.tree.get? place = s.tree.get? place → Change w i s s' place
  | directory : s.tree.get? place = none → s'.tree.get? place = some .directory →
      Change w i s s' place
  | draft : ((s.phase i).draft? = some place ∨ (s'.phase i).draft? = some place) →
      (∀ entry, s'.tree.get? place = some entry → ∃ bytes mode, entry = .file bytes mode) →
      Change w i s s' place
  | target : s'.phase i = .published place → w.IsTargetOf i place →
      (∃ mode, s'.tree.get? place = some (.file (w.writer i).bytes mode)) → Change w i s s' place

/-- All that a step of a writer does. -/
structure Moves (w : Writers ι) (i : ι) (s s' : State ι) : Prop where
  others : ∀ j, j ≠ i → s'.phase j = s.phase j
  unpublished : ∀ target, s.phase i ≠ .published target
  change : ∀ place, Change w i s s' place
  draft : ∀ draft, (s'.phase i).draft? = some draft → (s.phase i).draft? = some draft ∨
    s.tree.get? draft = none ∧ draft ≠ [] ∧ ¬w.IsTarget draft
  holds : (s'.phase i).Holds s'.tree (w.writer i).bytes

section
variable [DecidableEq ι] {phase : Phase} {after : Tree} {draft : Place}

/-- A step that leaves the tree as it is. -/
theorem Moves.of_same (hunpublished : ∀ target, s.phase i ≠ .published target)
    (hdraft : ∀ draft, phase.draft? = some draft → (s.phase i).draft? = some draft)
    (hholds : phase.Holds s.tree (w.writer i).bytes) : Moves w i s (s.put i s.tree phase) where
  others j hne := s.put_phase_other s.tree phase hne
  unpublished := hunpublished
  change _ := .same rfl
  draft draft h := .inl (hdraft draft (by rwa [State.put_phase_self] at h))
  holds := by rwa [State.put_phase_self]

/-- A step that sets or erases a draft, which is the writer's own. -/
theorem Moves.of_draft (hunpublished : ∀ target, s.phase i ≠ .published target)
    (hown : (s.phase i).draft? = some draft ∨
      phase.draft? = some draft ∧ s.tree.get? draft = none ∧ draft ≠ [] ∧ ¬w.IsTarget draft)
    (hdraft : ∀ other, phase.draft? = some other → other = draft)
    (hafter : ∀ place, place ≠ draft → after.get? place = s.tree.get? place)
    (hfile : ∀ entry, after.get? draft = some entry → ∃ bytes mode, entry = .file bytes mode)
    (hholds : phase.Holds after (w.writer i).bytes) : Moves w i s (s.put i after phase) where
  others j hne := s.put_phase_other after phase hne
  unpublished := hunpublished
  change place := by
    by_cases hplace : place = draft
    · subst hplace
      have howned : (s.phase i).draft? = some place ∨
          ((s.put i after phase).phase i).draft? = some place := by
        rw [State.put_phase_self]
        exact hown.imp_right (·.1)
      exact .draft howned hfile
    · exact .same (hafter place hplace)
  draft other h := by
    rw [State.put_phase_self] at h
    obtain rfl := hdraft other h
    exact hown.imp_right (·.2)
  holds := by rwa [State.put_phase_self]

/-- A step that puts more into a draft, or opens one. -/
theorem Moves.of_filling {found rest : ByteArray} {mode : Nat}
    (hunpublished : ∀ target, s.phase i ≠ .published target) (hne : draft ≠ [])
    (hown : (s.phase i).draft? = some draft ∨ s.tree.get? draft = none ∧ ¬w.IsTarget draft)
    (hfits : found ++ rest = (w.writer i).bytes) :
    Moves w i s (s.put i (s.tree.set draft (.file found mode)) (.filling draft rest)) := by
  have hfile : (s.tree.set draft (.file found mode)).get? draft = some (.file found mode) := by
    rw [Tree.get?_set _ hne, if_pos rfl]
  refine .of_draft hunpublished (hown.imp_right fun h => ⟨rfl, h.1, hne, h.2⟩)
    (fun _ h => (Option.some.inj h).symm) (fun place hplace => ?_) ?_ ?_
  · rw [Tree.get?_set _ hne, if_neg hplace]
  · intro entry hentry
    rw [hfile] at hentry
    exact ⟨_, _, (Option.some.inj hentry).symm⟩
  · intro other hother
    obtain rfl := Option.some.inj hother
    exact ⟨_, _, hfile, hfits⟩

/-- The step that puts a full draft in the place of the target. -/
theorem Moves.of_published {target : Place} {mode : Nat} (hown : (s.phase i).draft? = some draft)
    (hne : draft ≠ []) (htarget : w.IsTargetOf i target) (hroot : target ≠ []) :
    Moves w i s (s.put i ((s.tree.erase draft).set target (.file (w.writer i).bytes mode))
      (.published target)) where
  others j hother := s.put_phase_other _ _ hother
  unpublished other hphase := by
    rw [hphase] at hown
    exact absurd hown nofun
  change place := by
    by_cases hplace : place = target
    · subst hplace
      refine .target (s.put_phase_self _ _) htarget ⟨mode, ?_⟩
      rw [State.put_tree, Tree.get?_set _ hroot, if_pos rfl]
    have hother : ((s.tree.erase draft).set target (.file (w.writer i).bytes mode)).get? place =
        if place = draft then none else s.tree.get? place := by
      rw [Tree.get?_set _ hroot, if_neg hplace, Tree.get?_erase _ hne]
    by_cases hdraft : place = draft
    · refine .draft (.inl (hdraft ▸ hown)) fun entry hentry => ?_
      rw [State.put_tree, hother, if_pos hdraft] at hentry
      exact absurd hentry nofun
    · exact .same (by rw [State.put_tree, hother, if_neg hdraft])
  draft other hother := by
    rw [State.put_phase_self] at hother
    exact absurd hother nofun
  holds := by
    rw [State.put_phase_self]
    exact fun _ => nofun

/-- In a state in which the invariant holds, every step moves so. -/
theorem Step.moves (hs : Invariant w s) (h : Step w i s s') : Moves w i s s' := by
  have hown : ∀ {phase : Phase} {draft : Place}, s.phase i = phase → phase.draft? = some draft →
      (s.phase i).draft? = some draft := fun hphase hdraft => hphase ▸ hdraft
  cases h with
  | @makesDirectory parent place name after hphase hparent hrun =>
    obtain ⟨rfl, hmade, rfl⟩ := (makeIn_ensures parent name).of_ok hrun
    refine ⟨fun j hne => s.put_phase_other _ _ hne, by simp [hphase], fun place => ?_, ?_, ?_⟩
    · by_cases hplace : place = parent ++ [name]
      · refine .directory (hplace ▸ hmade.free) ?_
        rw [State.put_tree, Tree.get?_set _ (by simp), if_pos hplace]
      · refine .same ?_
        rw [State.put_tree, Tree.get?_set _ (by simp), if_neg hplace]
    · intro draft hdraft
      rw [State.put_phase_self] at hdraft
      exact absurd hdraft nofun
    · rw [State.put_phase_self]
      exact fun _ => nofun
  | hasDirectories hphase => exact .of_same (by simp [hphase]) (fun _ => nofun) fun _ => nofun
  | @opens labelling draft after hphase hrun hfree hnoTarget =>
    obtain ⟨directory, -, hdraft, -, rfl⟩ := (openDraft_ensures labelling _ _).of_ok hrun
    have hne : draft ≠ [] := by simp [hdraft]
    exact .of_filling (by simp [hphase]) hne (.inr ⟨hfree, hnoTarget⟩) ByteArray.empty_append
  | @appends draft chunk rest after hphase hrun =>
    have hown := hown hphase rfl
    obtain ⟨written, mode, hfile, hwritten⟩ := hs.holds i draft hown
    obtain ⟨found, mode', hfound, rfl⟩ := (appendTo_ensures draft chunk).of_ok hrun
    rw [hfile, Option.some.injEq, Entry.file.injEq] at hfound
    obtain ⟨rfl, rfl⟩ := hfound
    rw [hphase] at hwritten
    have hfits : written ++ chunk ++ rest = (w.writer i).bytes := by
      rw [ByteArray.append_assoc]
      exact hwritten
    exact .of_filling (by simp [hphase]) (hs.drafts i draft hown).ne_root (.inl hown) hfits
  | @closes draft hphase =>
    have hown := hown hphase rfl
    obtain ⟨written, mode, hfile, hwritten⟩ := hs.holds i draft hown
    rw [hphase] at hwritten
    have hfull : written = (w.writer i).bytes := by
      rw [← hwritten]
      exact ByteArray.append_empty.symm
    refine .of_same (by simp [hphase]) (fun _ h => h ▸ hown) fun other hother => ?_
    obtain rfl := Option.some.inj hother
    exact ⟨written, mode, hfile, hfull⟩
  | @publishes draft target after hphase htarget hrun =>
    have hown := hown hphase rfl
    obtain ⟨found, mode, hfile, hfull⟩ := hs.holds i draft hown
    rw [hphase] at hfull
    obtain rfl : found = (w.writer i).bytes := hfull
    obtain ⟨_, entry, ⟨parent, hparent, rfl⟩, -, -, -, hentry, -, rfl⟩ :=
      (publish_ensures _ draft _).of_ok hrun
    obtain ⟨_, hfound, rfl⟩ := htarget
    obtain rfl := Except.ok.inj (hparent.symm.trans hfound)
    obtain rfl := Option.some.inj (hfile.symm.trans hentry)
    exact .of_published hown (hs.drafts i draft hown).ne_root
      ⟨s.tree, hs.links, parent, hparent, rfl⟩ (by simp)
  | @fails draft hown =>
    obtain ⟨found, mode, hfile, -⟩ := hs.holds i draft hown
    refine .of_same (fun target hphase => ?_) (fun _ h => h ▸ hown) fun other hother => ?_
    · rw [hphase] at hown
      exact absurd hown nofun
    · obtain rfl := Option.some.inj hother
      exact ⟨found, mode, hfile, trivial⟩
  | @discards draft after hphase hrun =>
    have hown := hown hphase rfl
    have hne := (hs.drafts i draft hown).ne_root
    obtain rfl := (discard_ensures draft).of_ok hrun
    refine .of_draft (by simp [hphase]) (.inl hown) (fun _ => nofun) (fun place hplace => ?_) ?_
      fun _ => nofun
    · rw [Tree.get?_erase _ hne, if_neg hplace]
    · intro entry hentry
      rw [Tree.get?_erase _ hne, if_pos rfl] at hentry
      exact absurd hentry nofun
  | stops hunpublished => exact .of_same hunpublished (fun _ => nofun) fun _ => nofun

end

/-! ### From one step to all -/

namespace Moves

/-- A draft that is made is private: nothing was at its place. -/
theorem isPrivate (hs : Invariant w s) (h : Moves w i s s') {draft : Place}
    (hdraft : (s.phase i).draft? = some draft ∨ (s'.phase i).draft? = some draft) :
    w.IsPrivate draft := by
  have hold : (s.phase i).draft? = some draft ∨
      s.tree.get? draft = none ∧ draft ≠ [] ∧ ¬w.IsTarget draft := by
    rcases hdraft with hdraft | hdraft
    · exact .inl hdraft
    · exact h.draft draft hdraft
  rcases hold with hdraft | ⟨hnone, hne, hnoTarget⟩
  · exact hs.drafts i draft hdraft
  refine ⟨hne, hnoTarget, fun entry hentry => ?_⟩
  cases entry with
  | directory => rfl
  | file bytes mode =>
    obtain ⟨bytes', mode', hfile⟩ := hs.files draft bytes mode hentry
    rw [hnone] at hfile
    exact absurd hfile nofun
  | link target =>
    obtain hlink | ⟨bytes, mode, hfile⟩ := hs.links.kept draft target hentry
    · rw [hnone] at hlink
      exact absurd hlink nofun
    · rw [hnone] at hfile
      exact absurd hfile nofun

theorem links (hs : Invariant w s) (h : Moves w i s s') : KeepsLinks w.start s'.tree where
  old place target hlink := by
    cases h.change place with
    | same hsame => exact hs.links.old place target (hsame ▸ hlink)
    | directory hnone hdirectory =>
      rw [hdirectory] at hlink
      exact absurd hlink nofun
    | draft hdraft hfile =>
      obtain ⟨bytes, mode, heq⟩ := hfile _ hlink
      exact absurd heq nofun
    | target hphase htarget hfile =>
      obtain ⟨mode, hfile⟩ := hfile
      rw [hfile] at hlink
      exact absurd hlink nofun
  kept place target hlink := by
    cases h.change place with
    | same hsame =>
      rw [hsame]
      exact hs.links.kept place target hlink
    | directory hnone hdirectory =>
      have hkept := hs.links.kept place target hlink
      simp [hnone] at hkept
    | draft hdraft hfile => exact absurd ((h.isPrivate hs hdraft).original _ hlink) nofun
    | target hphase htarget hfile =>
      obtain ⟨mode, hfile⟩ := hfile
      exact .inr ⟨_, mode, hfile⟩

/-- A file of which a writer takes the place or the name is its own draft. -/
theorem file_of_file (h : Moves w i s s') {place : Place} {bytes : ByteArray}
    {mode : Nat} (hfile : s.tree.get? place = some (.file bytes mode)) :
    (s.phase i).draft? = some place ∨
      ∃ bytes' mode', s'.tree.get? place = some (.file bytes' mode') := by
  cases h.change place with
  | same hsame => exact .inr ⟨bytes, mode, hsame.trans hfile⟩
  | directory hnone hdirectory =>
    rw [hnone] at hfile
    exact absurd hfile nofun
  | draft hdraft hrest =>
    rcases hdraft with hdraft | hdraft
    · exact .inl hdraft
    · obtain hdraft | ⟨hnone, -⟩ := h.draft place hdraft
      · exact .inl hdraft
      · rw [hnone] at hfile
        exact absurd hfile nofun
  | target hphase htarget hrest =>
    obtain ⟨mode', hrest⟩ := hrest
    exact .inr ⟨_, mode', hrest⟩

/-- The draft of another writer is not touched. -/
theorem draft_of_other (hs : Invariant w s) (h : Moves w i s s') {j : ι} (hne : j ≠ i)
    {draft : Place} (hdraft : (s.phase j).draft? = some draft) :
    s'.tree.get? draft = s.tree.get? draft ∧ (s'.phase i).draft? ≠ some draft := by
  obtain ⟨found, mode, hfile, -⟩ := hs.holds j draft hdraft
  have hnew : (s'.phase i).draft? ≠ some draft := by
    intro hown
    obtain hown | ⟨hnone, -⟩ := h.draft draft hown
    · exact hne (hs.apart j i draft hdraft hown)
    · rw [hnone] at hfile
      exact absurd hfile nofun
  refine ⟨?_, hnew⟩
  cases h.change draft with
  | same hsame => exact hsame
  | directory hnone hdirectory =>
    rw [hnone] at hfile
    exact absurd hfile nofun
  | draft hown hrest =>
    rcases hown with hown | hown
    · exact absurd (hs.apart j i draft hdraft hown) hne
    · exact absurd hown hnew
  | target hphase htarget hrest =>
    exact absurd ⟨i, htarget⟩ (hs.drafts j draft hdraft).noTarget

/-- The invariant carries through a step. -/
theorem invariant (hs : Invariant w s) (h : Moves w i s s') : Invariant w s' where
  links := h.links hs
  files place bytes mode hstart := by
    obtain ⟨bytes', mode', hfile⟩ := hs.files place bytes mode hstart
    obtain hdraft | hkept := h.file_of_file hfile
    · exact absurd ((hs.drafts i place hdraft).original _ hstart) nofun
    · exact hkept
  drafts j draft hdraft := by
    by_cases hne : j = i
    · exact h.isPrivate hs (.inr (hne ▸ hdraft))
    · rw [h.others j hne] at hdraft
      exact hs.drafts j draft hdraft
  holds j := by
    by_cases hne : j = i
    · exact hne ▸ h.holds
    · rw [h.others j hne]
      intro draft hdraft
      rw [(h.draft_of_other hs hne hdraft).1]
      exact hs.holds j draft hdraft
  apart j k draft hj hk := by
    by_cases hji : j = i
    · by_cases hki : k = i
      · rw [hji, hki]
      · rw [h.others k hki] at hk
        exact absurd (hji ▸ hj) (h.draft_of_other hs hki hk).2
    · rw [h.others j hji] at hj
      by_cases hki : k = i
      · exact absurd (hki ▸ hk) (h.draft_of_other hs hji hj).2
      · rw [h.others k hki] at hk
        exact hs.apart j k draft hj hk
  targets place bytes mode htarget hfile := by
    cases h.change place with
    | same hsame =>
      rw [hsame] at hfile
      refine (hs.targets place bytes mode htarget hfile).imp_right ?_
      rintro ⟨j, htarget, hpublished, rfl⟩
      have hne : j ≠ i := fun heq => h.unpublished place (heq ▸ hpublished)
      exact ⟨j, htarget, (h.others j hne).trans hpublished, rfl⟩
    | directory hnone hdirectory =>
      rw [hdirectory] at hfile
      exact absurd hfile nofun
    | draft hdraft hrest => exact absurd htarget (h.isPrivate hs hdraft).noTarget
    | target hphase htarget hrest =>
      obtain ⟨mode', hrest⟩ := hrest
      rw [hrest, Option.some.injEq, Entry.file.injEq] at hfile
      exact .inr ⟨i, htarget, hphase, hfile.1.symm⟩

end Moves

section
variable [DecidableEq ι]

/-- The invariant carries through any steps. -/
theorem Reachable.invariant (h : Reachable w s) : Invariant w s := by
  induction h with
  | initial => exact w.initial_invariant
  | step _ hstep ih => exact (hstep.moves ih).invariant ih

/-- **A reader of a target never sees a part of a text.** In every state that can be reached,
a target that is a file holds what it held at the start or all of the bytes of a writer that
has this target and has published there. A file of the start is still a file. A step by which
a file disappears removes the writer's own draft, which is no target, was not there at the
start, and is nobody else's. -/
theorem Reachable.never_truncated (h : Reachable w s) :
    (∀ i place, LeadsTo s.tree w.workingDirectory (w.writer i).path place →
      w.IsTargetOf i place) ∧
    (∀ target bytes mode, w.IsTarget target → s.tree.get? target = some (.file bytes mode) →
      w.start.get? target = some (.file bytes mode) ∨
        ∃ j, w.IsTargetOf j target ∧ s.phase j = .published target ∧
          bytes = (w.writer j).text.toUTF8) ∧
    (∀ place bytes mode, w.start.get? place = some (.file bytes mode) →
      ∃ bytes' mode', s.tree.get? place = some (.file bytes' mode')) ∧
    ∀ i s', Step w i s s' → ∀ place bytes mode, s.tree.get? place = some (.file bytes mode) →
      (∀ bytes' mode', s'.tree.get? place ≠ some (.file bytes' mode')) →
      (s.phase i).draft? = some place ∧ w.IsPrivate place ∧
        ∀ j, j ≠ i → (s.phase j).draft? ≠ some place := by
  have hs := h.invariant
  refine ⟨fun i place hleads => ⟨s.tree, hs.links, hleads⟩, hs.targets, hs.files, ?_⟩
  intro i s' hstep place bytes mode hfile hgone
  obtain hown | ⟨bytes', mode', hkept⟩ := (hstep.moves hs).file_of_file hfile
  · exact ⟨hown, hs.drafts i place hown, fun j hne hother => hne (hs.apart j i place hother hown)⟩
  · exact absurd hkept (hgone bytes' mode')

/-! ### A write is such steps -/

/-- Directories are made by steps of the writer. -/
theorem makesWay_steps (w : Writers ι) (s : State ι) (i : ι) :
    MakesWay w.workingDirectory (fun _ tree => Reachable w (s.put i tree .preparing))
      (fun _ before after => Reachable w (s.put i before .preparing) →
        Reachable w (s.put i after .preparing))
      (fun _ place tree => tree.get? place = some .directory) where
  refl _ _ h := h
  trans hfirst hsecond h := hsecond (hfirst h)
  ofParent h := h
  fitsParent h := h
  fitsAfter h hgrows := hgrows h
  existing _ hthere := (get?_of_directoryAt hthere).2
  make := by
    intro path parent tree hreach _ hparent hmade
    refine ⟨fun _ => ?_, by rw [Tree.get?_set _ (by simp), if_pos rfl]⟩
    have hstep := hreach.step (.makesDirectory (s.put_phase_self tree .preparing) hparent
      (run_makeIn hmade))
    rwa [State.put_put] at hstep

/-- **A write that runs alone takes steps of its writer only.** So the steps are those of the
operation. -/
theorem Reachable.writeBy {labelling : Labelling} (h : Reachable w s)
    (hphase : s.phase i = .preparing) (hfree : labelling.IsFree)
    (hnoTarget : ∀ tree directory, ¬w.IsTarget (directory ++
      [draftName (w.writer i).path.name (labelling tree directory (w.writer i).path.name)])) :
    Ensures s.tree
      (writeBy labelling w.workingDirectory (w.writer i).path (.str (w.writer i).text))
      (fun _ after => ∃ target, Reachable w (s.put i after (.published target)))
      fun _ after => Reachable w (s.put i after .stopped) := by
  have hstart : Reachable w (s.put i s.tree .preparing) := by
    have hsame : s.put i s.tree .preparing = s := by
      rw [State.put, ← hphase, Function.update_eq_self]
    rwa [hsame]
  -- every step of this writer starts from a state that it has put
  have hnext : ∀ {tree after : Tree} {phase phase' : Phase}, Reachable w (s.put i tree phase) →
      Step w i (s.put i tree phase) ((s.put i tree phase).put i after phase') →
      Reachable w (s.put i after phase') := by
    intro tree after phase phase' hreach hstep
    have hstepped := hreach.step hstep
    rwa [State.put_put] at hstepped
  have hself : ∀ tree phase, (s.put i tree phase).phase i = phase := s.put_phase_self
  have hstops : ∀ {tree : Tree} {phase : Phase}, Reachable w (s.put i tree phase) →
      (∀ target, phase ≠ .published target) → Reachable w (s.put i tree .stopped) := by
    intro tree phase hreach hunpublished
    exact hnext hreach (.stops (by rwa [hself]))
  have hfails : ∀ {tree : Tree} {phase : Phase} {draft : Place}, Reachable w (s.put i tree phase) →
      phase.draft? = some draft → Reachable w (s.put i tree (.failed draft)) := by
    intro tree phase draft hreach hdraft
    exact hnext hreach (.fails (by rwa [hself]))
  unfold Files.writeBy
  refine .bind (((makesWay_steps w s i).ensureDirectory_ensures hstart).imp (fun _ _ h => h) ?_) ?_
  · exact fun _ _ hgrows => hstops (hgrows hstart) nofun
  rintro parent middle ⟨hgrows, -⟩
  have hopening := hnext (hgrows hstart) (.hasDirectories (hself _ _))
  refine .bind ((openDraft_ensures labelling _ _).withRun.imp (fun _ _ h => h) ?_) ?_
  · rintro _ _ ⟨-, rfl⟩
    exact hstops hopening nofun
  rintro draft opened ⟨hrun, directory, -, hdraft, -⟩
  have hfilling := hnext hopening (.opens (hself _ _) hrun (hdraft ▸ hfree middle directory _)
    (hdraft ▸ hnoTarget middle directory))
  have htry : Ensures opened
      (do
        let bytes ← bytesOf (.str (w.writer i).text)
        appendTo draft bytes
        publish w.workingDirectory draft (w.writer i).path : Operation Unit)
      (fun _ after => ∃ target, Reachable w (s.put i after (.published target)))
      fun _ after => Reachable w (s.put i after (.failed draft)) := by
    refine .bind ((bytesOf_ensures _).imp (fun _ _ h => h) fun _ _ h => h ▸ hfails hfilling rfl) ?_
    rintro _ _ ⟨⟨text, htext, rfl⟩, rfl⟩
    obtain rfl := Json.str.inj htext
    refine .bind ((appendTo_ensures draft _).withRun.imp (fun _ _ h => h) ?_) ?_
    · rintro _ _ ⟨-, rfl⟩
      exact hfails hfilling rfl
    rintro _ filled ⟨hrun, -⟩
    -- all bytes are one chunk, and nothing is left behind it
    have hchunk : (w.writer i).bytes = (w.writer i).bytes ++ ByteArray.empty :=
      ByteArray.append_empty.symm
    have hempty : Reachable w (s.put i filled (.filling draft ByteArray.empty)) :=
      hnext hfilling (.appends (by rw [hself]; exact congrArg _ hchunk) hrun)
    have hfull := hnext hempty (.closes (hself _ _))
    refine (publish_ensures w.workingDirectory draft _).withRun.imp ?_ ?_
    · rintro _ after ⟨hrun, target, entry, hleads, -⟩
      exact ⟨target, hnext hfull (.publishes (hself _ _) hleads hrun)⟩
    · rintro _ _ ⟨-, rfl⟩
      exact hfails hfull rfl
  refine .tryCatch htry fun fault after hfailed => ?_
  refine .bind ((discard_ensures draft).withRun.imp (fun _ _ h => h) fun _ _ h => h.2.elim) ?_
  rintro _ last ⟨hrun, -⟩
  exact .refuse (hnext hfailed (.discards (hself _ _) hrun))

end

/-- Two writers that write to the same file. -/
def rivals : Writers Bool where
  start := ({} : Tree).set ["blog.d.ts"] (.file "old\n".toUTF8 defaultMode)
  workingDirectory := []
  writer first := ⟨.ofString "blog.d.ts", if first then "new\n" else "newer\n"⟩

theorem rivals_noTarget (directory : Place) (label : String) :
    ¬rivals.IsTarget (directory ++ [draftName "blog.d.ts" label]) := by
  rintro ⟨first, tree, -, parent, -, hplace⟩
  have hname := (List.append_inj' hplace rfl).2
  exact draftName_ne "blog.d.ts" label (List.cons.inj hname).1

/-- The tree in which the first writer has a draft. -/
def draftTree (content : ByteArray) : Tree :=
  rivals.start.set [".blog.d.ts.1.tmp"] (.file content draftMode)

/-- The first writer has written half of its text. -/
def halfway : State Bool :=
  rivals.initial.put true (draftTree "ne".toUTF8) (.filling [".blog.d.ts.1.tmp"] "w\n".toUTF8)

theorem halfway_reachable : Reachable rivals halfway := by
  have hopening : Reachable rivals (rivals.initial.put true rivals.start .opening) :=
    Reachable.initial.step (.hasDirectories rfl)
  have hopen : (openDraft (fun _ _ _ => "1") [] (.ofString "blog.d.ts")).run.run rivals.start =
      (.ok [".blog.d.ts.1.tmp"], draftTree ByteArray.empty) := rfl
  have hopens : Step rivals true (rivals.initial.put true rivals.start .opening) _ :=
    .opens rfl hopen rfl (rivals_noTarget [] "1")
  have hfilling := hopening.step hopens
  have hchunk : (rivals.writer true).bytes = "ne".toUTF8 ++ "w\n".toUTF8 := by decide +kernel
  have happend : (appendTo [".blog.d.ts.1.tmp"] "ne".toUTF8).run.run (draftTree ByteArray.empty) =
      (.ok (), draftTree "ne".toUTF8) := rfl
  rw [State.put_put, hchunk] at hfilling
  have hhalf := hfilling.step (.appends (State.put_phase_self ..) happend)
  rwa [State.put_put] at hhalf

/-- The second writer has published while the first one is halfway. -/
theorem rivals_not_truncated : ∃ s target, Reachable rivals s ∧
    s.phase false = .published target ∧
    s.phase true = .filling [".blog.d.ts.1.tmp"] "w\n".toUTF8 ∧
    ∀ bytes mode, s.tree.get? ["blog.d.ts"] = some (.file bytes mode) →
      bytes = "old\n".toUTF8 ∨ bytes = "newer\n".toUTF8 := by
  have hensures := @Reachable.writeBy _ rivals halfway false _ _ halfway_reachable rfl
    freeLabel_isFree fun tree directory => rivals_noTarget directory _
  have hsucceeds : ((writeBy freeLabel [] (.ofString "blog.d.ts") (.str "newer\n")).run.run
      halfway.tree).1.isOk := by decide +kernel
  rcases hrun : (writeBy freeLabel [] (.ofString "blog.d.ts") (.str "newer\n")).run.run
    halfway.tree with ⟨fault | ⟨⟩, after⟩
  · rw [hrun] at hsucceeds
    exact absurd hsucceeds nofun
  obtain ⟨target, hreach⟩ := hensures.of_ok hrun
  refine ⟨_, target, hreach, halfway.put_phase_self _ _, ?_, fun bytes mode hfile => ?_⟩
  · exact halfway.put_phase_other _ _ nofun
  have htarget : rivals.IsTarget ["blog.d.ts"] :=
    ⟨false, rivals.start, rivals.initial_invariant.links, [], rfl, rfl⟩
  obtain hold | ⟨first, -, hpublished, hbytes⟩ :=
    hreach.never_truncated.2.1 ["blog.d.ts"] bytes mode htarget hfile
  · exact .inl (Entry.file.inj (Option.some.inj hold)).1.symm
  · cases first with
    | false => exact .inr hbytes
    | true => exact absurd hpublished nofun

end Files
end ContentDecl
