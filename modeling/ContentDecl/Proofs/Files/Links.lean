/-
# Links that stay

Nobody who writes files makes a link, and a link that is there can only be replaced by a
file. So in all trees that come from one start a path leads to one directory, if it leads to
a directory at all: where it failed before, a directory was missing, and where a file has
replaced a link, it fails from then on.

Key definitions: `KeepsLinks`.
Key theorems: `walkUpToLink_unique`, `directoryAt_unique`.
-/
import ContentDecl.Proofs.Files.Operation

namespace ContentDecl
namespace Files

/-- The links of a tree are those of the start, but for some that a file has replaced. -/
structure KeepsLinks (start tree : Tree) : Prop where
  old : ∀ place target,
    tree.get? place = some (.link target) → start.get? place = some (.link target)
  kept : ∀ place target, start.get? place = some (.link target) →
    tree.get? place = some (.link target) ∨ ∃ bytes mode, tree.get? place = some (.file bytes mode)

/-- What is no directory can only be the last place of a way, and then the way does not
lead to a directory. -/
theorem not_ends {tree : Tree} {here place : Place} {rest : List String} {failure : Failure}
    (hplace : tree.get? place = some .directory) (hhere : tree.get? here ≠ some .directory) :
    (if rest.isEmpty then Except.ok here else .error failure) ≠ .ok place := by
  intro hends
  split at hends
  · exact hhere (Except.ok.inj hends ▸ hplace)
  · exact absurd hends nofun

/-- Where a link is, there is the same one or a file in another tree that keeps the links. -/
theorem KeepsLinks.of_link {start tree other : Tree} (h : KeepsLinks start tree)
    (hother : KeepsLinks start other) {place : Place} {target : String}
    (hlink : other.get? place = some (.link target)) :
    tree.get? place ≠ some .directory ∧
      ∀ target', tree.get? place = some (.link target') → target' = target := by
  have hstart := hother.old place target hlink
  refine ⟨?_, fun target' hlink' => ?_⟩
  · obtain hkept | ⟨bytes, mode, hfile⟩ := h.kept place target hstart
    · simp [hkept]
    · simp [hfile]
  · have hsame := (h.old place target' hlink').symm.trans hstart
    simpa using hsame

section
variable {start tree tree' : Tree} (h : KeepsLinks start tree) (h' : KeepsLinks start tree')
  {place place' : Place} (hplace : tree.get? place = some .directory)
  (hplace' : tree'.get? place' = some .directory)

include h h' hplace hplace'

/-- Ways over the same names end in the same directory, if they do so where links are
followed. -/
theorem walkUpToLink_unique
    {follow follow' : Place → String → List String → Except Failure Place}
    (hfollow : ∀ here target rest, follow here target rest = .ok place →
      follow' here target rest = .ok place' → place = place') :
    ∀ {here : Place} {names : List String}, walkUpToLink tree true follow here names = .ok place →
      walkUpToLink tree' true follow' here names = .ok place' → place = place'
  | here, [], hwalk, hwalk' => by
    rw [walkUpToLink, Except.ok.injEq] at hwalk hwalk'
    exact hwalk.symm.trans hwalk'
  | here, name :: rest, hwalk, hwalk' => by
    rw [walkUpToLink] at hwalk hwalk'
    by_cases hblank : (name == "" || name == ".") = true
    · rw [if_pos hblank] at hwalk hwalk'
      exact walkUpToLink_unique hfollow hwalk hwalk'
    rw [if_neg hblank] at hwalk hwalk'
    by_cases hback : (name == "..") = true
    · rw [if_pos hback] at hwalk hwalk'
      exact walkUpToLink_unique hfollow hwalk hwalk'
    rw [if_neg hback] at hwalk hwalk'
    by_cases hlong : maxNameSize < name.utf8ByteSize
    · rw [if_pos hlong] at hwalk
      exact absurd hwalk nofun
    rw [if_neg hlong] at hwalk hwalk'
    rcases hfound : tree.get? (here ++ [name]) with _ | ⟨bytes, mode⟩ | _ | target <;>
      rcases hfound' : tree'.get? (here ++ [name]) with _ | ⟨bytes', mode'⟩ | _ | target' <;>
      rw [hfound] at hwalk <;> rw [hfound'] at hwalk'
    case some.directory.some.directory => exact walkUpToLink_unique hfollow hwalk hwalk'
    case some.link.some.link =>
      obtain rfl := (h'.of_link h hfound).2 target' hfound'
      simp only [Bool.not_true, Bool.and_false] at hwalk hwalk'
      exact hfollow here _ rest hwalk hwalk'
    case some.directory.some.link => exact absurd hfound (h.of_link h' hfound').1
    case some.link.some.directory => exact absurd hfound' (h'.of_link h hfound).1
    all_goals first
      | exact absurd hwalk (not_ends hplace (by simp [hfound]))
      | exact absurd hwalk' (not_ends hplace' (by simp [hfound']))

theorem walk_unique (links : Nat) :
    ∀ {here : Place} {names : List String}, walk tree true links here names = .ok place →
      walk tree' true links here names = .ok place' → place = place' := by
  induction links with
  | zero =>
    intro here names hwalk hwalk'
    rw [walk] at hwalk hwalk'
    refine walkUpToLink_unique h h' hplace hplace' ?_ hwalk hwalk'
    exact fun _ _ _ hfollow => absurd hfollow nofun
  | succ links ih =>
    intro here names hwalk hwalk'
    rw [walk] at hwalk hwalk'
    exact walkUpToLink_unique h h' hplace hplace' (fun _ _ _ => ih) hwalk hwalk'

end

/-- A path leads to one directory. -/
theorem directoryAt_unique {start tree tree' : Tree} (h : KeepsLinks start tree)
    (h' : KeepsLinks start tree') {workingDirectory place place' : Place} {path : Path}
    (hfound : directoryAt tree workingDirectory path = .ok place)
    (hfound' : directoryAt tree' workingDirectory path = .ok place') : place = place' := by
  obtain ⟨hplace, hdirectory⟩ := get?_of_directoryAt hfound
  obtain ⟨hplace', hdirectory'⟩ := get?_of_directoryAt hfound'
  cases hlong : path.isTooLong with
  | true =>
    rw [placeOf, if_pos hlong] at hplace
    exact absurd hplace (by simp)
  | false =>
    rw [placeOf, hlong] at hplace hplace'
    exact walk_unique h h' hdirectory hdirectory' maxLinks hplace hplace'

end Files
end ContentDecl
