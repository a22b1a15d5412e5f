/-
# What operations on a tree ensure

`Ensures tree x ok refused` says of an operation that is run on a tree: if it has a
result, this result and the tree behind it satisfy `ok`, and if it is refused, the
fault and the tree behind it satisfy `refused`. It is put together along the steps of
an operation.

Each step of writing a file has one such statement, which says all that the step does.
No step of these changes the tree if it is refused.

Key definitions: `Operation.Ensures`, `LeadsTo`.
Key theorems: `Operation.Ensures.bind`, `Operation.Ensures.tryCatch`,
`Operation.Ensures.guard`, `makeDirectory_ensures`, `createDraft_ensures`,
`appendTo_ensures`, `publish_ensures`.
-/
import ContentDecl.Files.AtomicWrite

namespace ContentDecl
namespace Files

variable {ε α β : Type} {tree after : Tree}

/-- An operation on a tree, with faults of any kind. -/
abbrev OperationOf (ε : Type) := ExceptT ε (StateM Tree)

namespace Operation

variable {x : OperationOf ε α} {a : α} {fault : ε}

theorem run_bind_of_ok (hx : x.run.run tree = (.ok a, after)) (f : α → OperationOf ε β) :
    (x >>= f).run.run tree = (f a).run.run after := by
  rw [ExceptT.run_bind, StateT.run_bind, hx]
  rfl

theorem run_bind_of_error (hx : x.run.run tree = (.error fault, after))
    (f : α → OperationOf ε β) :
    (x >>= f).run.run tree = (.error fault, after) := by
  rw [ExceptT.run_bind, StateT.run_bind, hx]
  rfl

theorem run_get_bind (f : Tree → OperationOf ε α) :
    (get >>= f).run.run tree = (f tree).run.run tree := rfl

theorem run_tryCatch_of_ok (hx : x.run.run tree = (.ok a, after))
    (handler : ε → OperationOf ε α) :
    (tryCatch x handler).run.run tree = (.ok a, after) := by
  rw [ExceptT.run_tryCatch, StateT.run_bind, hx]
  rfl

theorem run_tryCatch_of_error (hx : x.run.run tree = (.error fault, after))
    (handler : ε → OperationOf ε α) :
    (tryCatch x handler).run.run tree = (handler fault).run.run after := by
  rw [ExceptT.run_tryCatch, StateT.run_bind, hx]
  rfl

/-- What an operation ensures of its result, or of the fault, and of the tree behind
it. -/
def Ensures (tree : Tree) (x : OperationOf ε α) (ok : α → Tree → Prop)
    (refused : ε → Tree → Prop) : Prop :=
  match x.run.run tree with
  | (.ok a, after) => ok a after
  | (.error fault, after) => refused fault after

namespace Ensures

variable {ok : α → Tree → Prop} {refused : ε → Tree → Prop}

theorem of_ok (h : Ensures tree x ok refused) (hx : x.run.run tree = (.ok a, after)) :
    ok a after := by
  rw [Ensures, hx] at h
  exact h

theorem of_error (h : Ensures tree x ok refused) (hx : x.run.run tree = (.error fault, after)) :
    refused fault after := by
  rw [Ensures, hx] at h
  exact h

/-- What an operation does may be kept with what it ensures. -/
theorem withRun (h : Ensures tree x ok refused) :
    Ensures tree x (fun a after => x.run.run tree = (.ok a, after) ∧ ok a after)
      fun fault after => x.run.run tree = (.error fault, after) ∧ refused fault after := by
  unfold Ensures at h ⊢
  split at h
  · exact ⟨‹_›, h⟩
  · exact ⟨‹_›, h⟩

theorem pure (h : ok a tree) : Ensures tree (Pure.pure a) ok refused := h

theorem refuse (h : refused fault tree) : Ensures tree (throw fault : OperationOf ε α) ok refused := h

theorem get_bind {f : Tree → OperationOf ε α} (h : Ensures tree (f tree) ok refused) :
    Ensures tree (get >>= f) ok refused := h

theorem change {update : Tree → Tree} {ok : Unit → Tree → Prop} (h : ok () (update tree)) :
    Ensures tree (modify update : OperationOf ε Unit) ok refused := h

theorem change_bind {update : Tree → Tree} {f : Unit → OperationOf ε α}
    (h : Ensures (update tree) (f ()) ok refused) :
    Ensures tree ((modify update : OperationOf ε Unit) >>= f) ok refused := h

/-- A condition that refuses what follows. -/
theorem guard {c : Prop} [Decidable c] {f : Unit → OperationOf ε α}
    (hrefused : c → refused fault tree)
    (h : ¬c → Ensures tree (f ()) ok refused) :
    Ensures tree (if c then do let r ← throw fault; f r else f ()) ok refused := by
  split
  · exact hrefused ‹c›
  · exact h ‹¬c›

theorem imp {ok' : α → Tree → Prop} {refused' : ε → Tree → Prop}
    (h : Ensures tree x ok refused) (hok : ∀ a after, ok a after → ok' a after)
    (hrefused : ∀ fault after, refused fault after → refused' fault after) :
    Ensures tree x ok' refused' := by
  unfold Ensures at h ⊢
  split at h
  · exact hok _ _ h
  · exact hrefused _ _ h

theorem bind {f : α → OperationOf ε β} {ok' : β → Tree → Prop} (h : Ensures tree x ok refused)
    (hf : ∀ a after, ok a after → Ensures after (f a) ok' refused) :
    Ensures tree (x >>= f) ok' refused := by
  unfold Ensures at h
  split at h
  · rename_i a after hx
    rw [Ensures, run_bind_of_ok hx]
    exact hf a after h
  · rename_i fault after hx
    rw [Ensures, run_bind_of_error hx]
    exact h

theorem tryCatch {handler : ε → OperationOf ε α} {refused' : ε → Tree → Prop}
    (h : Ensures tree x ok refused)
    (hhandler : ∀ fault after, refused fault after → Ensures after (handler fault) ok refused') :
    Ensures tree (tryCatch x handler) ok refused' := by
  unfold Ensures at h
  split at h
  · rename_i a after hx
    rw [Ensures, run_tryCatch_of_ok hx]
    exact h
  · rename_i fault after hx
    rw [Ensures, run_tryCatch_of_error hx]
    exact hhandler fault after h

end Ensures
end Operation

open Operation

/-! ### Looking -/

theorem look_ensures {find : Tree → Except Failure α} :
    Ensures tree (look find) (fun a after => find tree = .ok a ∧ after = tree)
      fun _ after => after = tree := by
  unfold look
  refine .get_bind ?_
  split
  · exact .pure ⟨‹_›, rfl⟩
  · exact .refuse rfl

/-- A path that can be looked at. A refused one is not for want of an entry. -/
theorem checkPath_ensures (path : Path) :
    Ensures tree (checkPath path)
      (fun _ after => (path.hasNull = false ∧ path.isTooLong = false) ∧ after = tree)
      fun fault after => fault ≠ .file .notFound ∧ after = tree := by
  unfold checkPath
  refine .guard (fun _ => ⟨nofun, rfl⟩) fun hnull => ?_
  split
  · exact .refuse ⟨nofun, rfl⟩
  · rename_i hlong
    exact .pure ⟨⟨by simpa using hnull, by simpa using hlong⟩, rfl⟩

/-- What is looked up as a directory is one. -/
theorem get?_of_directoryAt {workingDirectory place : Place} {path : Path}
    (h : directoryAt tree workingDirectory path = .ok place) :
    placeOf tree workingDirectory path = .ok place ∧ tree.get? place = some .directory := by
  unfold directoryAt at h
  cases hplace : placeOf tree workingDirectory path with
  | error failure =>
    rw [hplace] at h
    exact absurd h (by simp [bind, Except.bind])
  | ok found =>
    simp only [hplace, bind, Except.bind] at h
    split at h
    · obtain rfl := Except.ok.inj h
      exact ⟨rfl, ‹_›⟩
    · exact absurd h (by simp [throw, throwThe, MonadExceptOf.throw])
    · exact absurd h (by simp [throw, throwThe, MonadExceptOf.throw])

/-- The place that the path of a target leads to: its name in the directory it is in. -/
def LeadsTo (tree : Tree) (workingDirectory : Place) (path : Path) (place : Place) : Prop :=
  ∃ parent, directoryAt tree workingDirectory path.parent = .ok parent ∧
    place = parent ++ [path.name]

/-! ### Reading -/

theorem run_checkPath {path : Path} (hnull : path.hasNull = false)
    (hlong : path.isTooLong = false) : (checkPath path).run.run tree = (.ok (), tree) := by
  unfold checkPath
  rw [hnull, hlong]
  rfl

theorem run_look {find : Tree → Except Failure α} {a : α} (h : find tree = .ok a) :
    (look find).run.run tree = (.ok a, tree) := by
  rw [look, run_get_bind, h]
  rfl

theorem run_entryAt {workingDirectory place : Place} {path : Path} {entry : Entry}
    (hnull : path.hasNull = false) (hplace : placeOf tree workingDirectory path = .ok place)
    (hentry : tree.get? place = some entry) :
    (entryAt workingDirectory path).run.run tree = (.ok entry, tree) := by
  have hlong : path.isTooLong = false := by
    cases hlong : path.isTooLong with
    | false => rfl
    | true =>
      rw [placeOf, hlong, if_pos rfl] at hplace
      exact absurd hplace nofun
  have hlook : (look fun tree => placeOf tree workingDirectory path).run.run tree =
      (.ok place, tree) := run_look hplace
  rw [entryAt, run_bind_of_ok (run_checkPath hnull hlong), run_bind_of_ok hlook, run_get_bind,
    hentry]
  rfl

/-- The bytes of a file can be read. -/
theorem run_contentAt {workingDirectory place : Place} {path : Path} {content : ByteArray}
    {mode : Nat} (hnull : path.hasNull = false)
    (hplace : placeOf tree workingDirectory path = .ok place)
    (hfile : tree.get? place = some (.file content mode)) :
    (contentAt workingDirectory path).run.run tree = (.ok content, tree) := by
  rw [contentAt, run_bind_of_ok (run_entryAt hnull hplace hfile)]
  rfl

/-! ### Making one directory -/

/-- What a directory that is made needs: a name that does not lead back and is short
enough, and that nothing is there. -/
structure CanBeMade (tree : Tree) (parent : Place) (name : String) : Prop where
  ne_back : name ≠ ".."
  size : name.utf8ByteSize ≤ maxNameSize
  free : tree.get? (parent ++ [name]) = none

theorem makeIn_ensures (parent : Place) (name : String) :
    Ensures tree (makeIn parent name)
      (fun place after => place = parent ++ [name] ∧ CanBeMade tree parent name ∧
        after = tree.set place .directory)
      fun _ after => after = tree := by
  unfold makeIn
  refine .guard (fun _ => rfl) fun hname => ?_
  refine .guard (fun _ => rfl) fun hsize => ?_
  refine .get_bind ?_
  split
  · exact .refuse rfl
  · rename_i hfree
    exact .change_bind (.pure ⟨rfl, ⟨by simpa using hname, Nat.le_of_not_lt hsize, hfree⟩, rfl⟩)

theorem run_makeIn {parent : Place} {name : String} (h : CanBeMade tree parent name) :
    (makeIn parent name).run.run tree =
      (.ok (parent ++ [name]), tree.set (parent ++ [name]) .directory) := by
  unfold makeIn
  rw [if_neg (by simpa using h.ne_back), if_neg (Nat.not_lt.mpr h.size), run_get_bind, h.free]
  rfl

/-- A directory is made in one that is there, and only under a name. -/
theorem makeDirectory_ensures (workingDirectory : Place) (path : Path) :
    Ensures tree (makeDirectory workingDirectory path)
      (fun place after => path.parts ≠ [] ∧ ∃ parent,
        directoryAt tree workingDirectory path.parent = .ok parent ∧
        place = parent ++ [path.name] ∧ CanBeMade tree parent path.name ∧
        after = tree.set place .directory)
      fun fault after => (fault = .file .notFound → path.parts ≠ []) ∧ after = tree := by
  unfold makeDirectory
  refine .bind ((checkPath_ensures path).imp (fun _ _ h => h) ?_) ?_
  · exact fun fault after h => ⟨fun hfault => absurd hfault h.1, h.2⟩
  · rintro _ _ ⟨-, rfl⟩
    refine .guard (fun _ => ⟨nofun, rfl⟩) fun hparts => ?_
    have hne : path.parts ≠ [] := by simpa using hparts
    refine .bind (look_ensures.imp (fun _ _ h => h) fun _ _ h => ⟨fun _ => hne, h⟩) ?_
    rintro parent _ ⟨hparent, rfl⟩
    refine (makeIn_ensures parent path.name).imp ?_ fun _ _ h => ⟨fun _ => hne, h⟩
    exact fun place after h => ⟨hne, parent, hparent, h⟩

/-! ### The steps of writing a file -/

theorem draftDirectory_ensures (workingDirectory : Place) (path : Path) :
    Ensures tree (draftDirectory workingDirectory path)
      (fun directory after => tree.get? directory = some .directory ∧ after = tree)
      fun _ after => after = tree := by
  unfold draftDirectory
  refine .guard (fun _ => rfl) fun _ => ?_
  refine .bind ((checkPath_ensures _).imp (fun _ _ h => h) fun _ _ h => h.2) ?_
  rintro _ _ ⟨-, rfl⟩
  refine look_ensures.imp ?_ fun _ _ h => h
  rintro directory _ ⟨hdirectory, rfl⟩
  exact ⟨(get?_of_directoryAt hdirectory).2, rfl⟩

theorem createDraft_ensures (directory : Place) (name : String) :
    Ensures tree (createDraft directory name)
      (fun draft after => draft = directory ++ [name] ∧ name.utf8ByteSize ≤ maxNameSize ∧
        after = tree.set draft (.file ByteArray.empty draftMode))
      fun _ after => after = tree := by
  unfold createDraft
  refine .guard (fun _ => rfl) fun hsize => ?_
  exact .change_bind (.pure ⟨rfl, Nat.le_of_not_lt hsize, rfl⟩)

theorem appendTo_ensures (place : Place) (bytes : ByteArray) :
    Ensures tree (appendTo place bytes)
      (fun _ after => ∃ content mode, tree.get? place = some (.file content mode) ∧
        after = tree.set place (.file (content ++ bytes) mode))
      fun _ after => after = tree := by
  unfold appendTo
  refine .get_bind ?_
  split
  · rename_i content mode hfile
    exact .change ⟨content, mode, hfile, rfl⟩
  · exact .refuse rfl

theorem publish_ensures (workingDirectory draft : Place) (path : Path) :
    Ensures tree (publish workingDirectory draft path)
      (fun _ after => ∃ target entry, LeadsTo tree workingDirectory path target ∧
        path.name ≠ "" ∧ path.name ≠ ".." ∧ (path.hasNull = false ∧ path.isTooLong = false) ∧
        tree.get? draft = some entry ∧ tree.get? target ≠ some .directory ∧
        after = (tree.erase draft).set target entry)
      fun _ after => after = tree := by
  unfold publish
  refine .bind ((checkPath_ensures path).imp (fun _ _ h => h) fun _ _ h => h.2) ?_
  rintro _ _ ⟨hpath, rfl⟩
  refine .bind look_ensures ?_
  rintro parent _ ⟨hparent, rfl⟩
  refine .guard (fun _ => rfl) fun hname => ?_
  refine .get_bind (.get_bind ?_)
  split
  · exact .refuse rfl
  · rename_i entry hdraft htarget
    simp only [Bool.or_eq_true, beq_iff_eq, not_or] at hname
    exact .change ⟨_, entry, ⟨parent, hparent, rfl⟩, hname.1, hname.2, hpath, hdraft, htarget, rfl⟩
  · exact .refuse rfl

theorem discard_ensures (draft : Place) :
    Ensures tree (discard draft) (fun _ after => after = tree.erase draft) fun _ _ => False :=
  .change rfl

end Files
end ContentDecl
