/-
# Sorting by merging runs

A list is cut into the runs it is made of, and neighbouring runs are merged
until one is left. A list of fewer than `shortList` elements is one run;
in a longer one all runs but the last have a least length, so that there is
about a power of two of them.

Which runs are merged first follows from where they meet. The list is halved
again and again, and a meeting has the power of the first halving that puts the
middles of the two runs apart. A merge is done as soon as the meeting has more
power than the next one, and those that are left at the end from the right to
the left, where a short run between two others goes to the shorter one.

Elements that have one place in an order are sorted by it, and others stay in
the order given. Some elements may have no place in an order, as a
not-a-number, which is before nothing and behind nothing. Where they end, and
the rest around them, depends on which elements are compared; here it is
exactly these. A comparison without an answer leaves the list unsorted.

Key definitions: `Sorting.shortestRun`, `Sorting.power`, `Sorting.Pending`,
`Sorting.sort?`.
Key theorems: `Sorting.sort?_perm`.
-/
import ContentDecl.Sorting.Merge
import ContentDecl.Sorting.Run

namespace ContentDecl
namespace Sorting

/-- How many elements a list has to have to be cut into runs. -/
def shortList : Nat := 64

/-- Halves a length until it is that of a short list, and rounds up if a half
was lost. -/
def halveLength : Nat → Bool → Nat → Nat
  | 0, _, length => length
  | steps + 1, lost, length =>
    if length < shortList then length + lost.toNat
    else halveLength steps (lost || length % 2 == 1) (length / 2)

/-- The least length of a run of a list. No length is halved more often than it
counts. -/
def shortestRun (length : Nat) : Nat := halveLength (length + 1) false length

/-- How often the list is halved before two places, as parts of the whole, are
in different halves. -/
def power (whole : Nat) : Nat → Nat → Nat → Nat
  | 0, _, _ => 0
  | steps + 1, x, y =>
    if x / whole == y / whole then power whole steps (2 * x) (2 * y) + 1 else 0

/-- A run that waits to be merged, and the power of its meeting with the next
one. -/
structure Pending (α : Type) where
  run : List α
  power : Nat

variable {α : Type} (before? : α → α → Option Bool)

/-- Merges a run with those before it whose meetings have more power than the
one behind it. The runs before it are given from the last to the first. -/
def mergeBack (power patience : Nat) (run : List α) :
    List (Pending α) → Option (Nat × List α × List (Pending α))
  | [] => some (patience, run, [])
  | last :: earlier =>
    if power < last.power then do
      let (patience, run) ← merge before? patience last.run run
      mergeBack power patience run earlier
    else some (patience, run, last :: earlier)

/-- Merges all runs, which are given from the last to the first. Every step
leaves one less. -/
def mergeAll : Nat → Nat → List (List α) → Option (List α)
  | steps + 1, patience, zs :: ys :: xs :: earlier =>
    if xs.length < zs.length then do
      let (patience, merged) ← merge before? patience xs ys
      mergeAll steps patience (zs :: merged :: earlier)
    else do
      let (patience, merged) ← merge before? patience ys zs
      mergeAll steps patience (merged :: xs :: earlier)
  | steps + 1, patience, [ys, xs] => do
    let (patience, merged) ← merge before? patience xs ys
    mergeAll steps patience [merged]
  | _, _, runs => some runs.flatten

/-- Cuts the rest of a list into runs, and merges them with the last run and
those that wait. No list has more runs than elements, so nothing of it is left
when the steps are used up. -/
def sortRest (whole : Nat) :
    Nat → Nat → List α → List (Pending α) → List α → Option (List α)
  | steps + 1, patience, run, waiting, x :: rest => do
    let (next, rest) ← nextRun before? (shortestRun whole) (x :: rest)
    -- Places are counted in half elements, so that the middle of a run is one.
    let start := (waiting.map (·.run.length)).sum
    let middle := 2 * start + run.length
    let meeting := power whole whole middle (middle + run.length + next.length)
    let (patience, run, waiting) ← mergeBack before? meeting patience run waiting
    sortRest whole steps patience next (⟨run, meeting⟩ :: waiting) rest
  | _, patience, run, waiting, rest => do
    return (← mergeAll before? waiting.length patience (run :: waiting.map (·.run))) ++ rest

/-- The elements in ascending order, if every comparison has an answer. -/
def sort? (xs : List α) : Option (List α) := do
  let (run, rest) ← nextRun before? (shortestRun xs.length) xs
  sortRest before? xs.length rest.length firstPatience run [] rest

variable {before?}

/-- The elements of runs that wait, given from the last to the first. -/
def Pending.elements (waiting : List (Pending α)) : List α := (waiting.map (·.run)).flatten

theorem mergeBack_perm {power patience patience' : Nat} {run run' : List α}
    {waiting waiting' : List (Pending α)}
    (h : mergeBack before? power patience run waiting = some (patience', run', waiting')) :
    (run' ++ Pending.elements waiting').Perm (run ++ Pending.elements waiting) := by
  induction waiting generalizing patience run with
  | nil => simp_all [mergeBack]
  | cons last earlier ih =>
    unfold mergeBack at h
    split at h
    · obtain ⟨⟨_, merged⟩, hmerge, h⟩ := Option.bind_eq_some_iff.mp h
      refine (ih h).trans (((merge_perm hmerge).append_right _).trans ?_)
      refine (List.perm_append_comm.append_right _).trans (.of_eq ?_)
      simp [Pending.elements]
    · simp_all

theorem mergeAll_perm {steps patience : Nat} {runs : List (List α)} {sorted : List α}
    (h : mergeAll before? steps patience runs = some sorted) : sorted.Perm runs.flatten := by
  induction steps generalizing patience runs with
  | zero => simp_all [mergeAll]
  | succ steps ih =>
    unfold mergeAll at h
    split at h
    · rename_i heq
      obtain rfl := Nat.succ.inj heq
      split at h
      · obtain ⟨⟨_, merged⟩, hmerge, h⟩ := Option.bind_eq_some_iff.mp h
        refine (ih h).trans (.trans (((merge_perm hmerge).append_right _).append_left _) ?_)
        simpa using (List.perm_append_comm.append_right _).append_left _
      · obtain ⟨⟨_, merged⟩, hmerge, h⟩ := Option.bind_eq_some_iff.mp h
        refine (ih h).trans (.trans ((merge_perm hmerge).append_right _) ?_)
        simpa using (List.perm_append_comm.append_right _)
    · rename_i heq
      obtain rfl := Nat.succ.inj heq
      obtain ⟨⟨_, merged⟩, hmerge, h⟩ := Option.bind_eq_some_iff.mp h
      refine (ih h).trans ?_
      simpa using (merge_perm hmerge).trans List.perm_append_comm
    · simp_all

theorem sortRest_perm {whole steps patience : Nat} {run rest sorted : List α}
    {waiting : List (Pending α)}
    (h : sortRest before? whole steps patience run waiting rest = some sorted) :
    sorted.Perm (run ++ Pending.elements waiting ++ rest) := by
  have last : ∀ {patience : Nat} {run rest sorted : List α} {waiting : List (Pending α)},
      (do
        return (← mergeAll before? waiting.length patience (run :: waiting.map (·.run))) ++ rest)
          = some sorted → sorted.Perm (run ++ Pending.elements waiting ++ rest) := by
    intro patience run rest sorted waiting h
    obtain ⟨merged, hmerged, h⟩ := Option.bind_eq_some_iff.mp h
    obtain rfl := Option.some.inj h
    exact (mergeAll_perm hmerged).append_right rest
  induction steps generalizing patience run waiting rest with
  | zero => exact last h
  | succ steps ih =>
    cases rest with
    | nil => exact last h
    | cons x rest =>
      obtain ⟨⟨next, rest'⟩, hnext, h⟩ := Option.bind_eq_some_iff.mp h
      obtain ⟨⟨_, run', waiting'⟩, hback, h⟩ := Option.bind_eq_some_iff.mp h
      refine (ih h).trans ?_
      have settled : (next ++ (run' ++ Pending.elements waiting') ++ rest').Perm
          (next ++ (run ++ Pending.elements waiting) ++ rest') :=
        ((mergeBack_perm hback).append_left next).append_right rest'
      refine settled.trans ((List.perm_append_comm.append_right rest').trans ?_)
      rw [List.append_assoc]
      exact (nextRun_perm hnext).append_left _

/-- Sorting loses no element and adds none. -/
theorem sort?_perm {xs sorted : List α} (h : sort? before? xs = some sorted) :
    sorted.Perm xs := by
  obtain ⟨⟨run, rest⟩, hrun, h⟩ := Option.bind_eq_some_iff.mp h
  refine (sortRest_perm h).trans ?_
  simpa [Pending.elements] using nextRun_perm hrun

end Sorting
end ContentDecl
