/-
# Runs

A run is a sorted stretch of a list. The elements a list starts with are a run
as long as they do not descend, and become one by being turned around as long
as they descend at every step. A run that is too short is made longer by
putting the next elements into it, each by bisection and behind those it is not
before.

Key definitions: `Sorting.firstRun`, `Sorting.insert`, `Sorting.nextRun`.
Key theorems: `Sorting.firstRun_perm`, `Sorting.insert_perm`,
`Sorting.nextRun_perm`.
-/
import ContentDecl.Sorting.Search

namespace ContentDecl
namespace Sorting

variable {α : Type} (before? : α → α → Option Bool)

/-- The elements up to the first that is not as the run has it: before its
predecessor if the run falls, and not before it otherwise. -/
def takeRun (falls : Bool) (last : α) : List α → Option (List α × List α)
  | [] => some ([], [])
  | x :: xs => do
    if (← before? x last) == falls then
      let (run, rest) ← takeRun falls x xs
      return (x :: run, rest)
    else return ([], x :: xs)

/-- The run a list starts with, in ascending order, and the rest. -/
def firstRun : List α → Option (List α × List α)
  | [] => some ([], [])
  | [x] => some ([x], [])
  | x :: y :: ys => do
    let falls ← before? y x
    let (run, rest) ← takeRun before? falls y ys
    return (if falls then (x :: y :: run).reverse else x :: y :: run, rest)

/-- Puts an element into a run. -/
def insert (run : List α) (x : α) : Option (List α) := do
  let place ← bisect (atPlace run fun y => not <$> before? x y) run.length 0 run.length
  return run.take place ++ x :: run.drop place

/-- The run a list starts with, made as long as asked for if there are as many
elements, and the rest. -/
def nextRun (shortest : Nat) (xs : List α) : Option (List α × List α) := do
  let (run, rest) ← firstRun before? xs
  let missing := shortest - run.length
  let run ← (rest.take missing).foldlM (insert before?) run
  return (run, rest.drop missing)

variable {before?}

theorem takeRun_append {falls : Bool} {last : α} {xs run rest : List α}
    (h : takeRun before? falls last xs = some (run, rest)) : run ++ rest = xs := by
  induction xs generalizing last run with
  | nil => simp_all [takeRun]
  | cons x xs ih =>
    simp only [takeRun, Option.bind_eq_bind, Option.bind_eq_some_iff] at h
    obtain ⟨answer, _, h⟩ := h
    split at h
    · obtain ⟨⟨run', rest'⟩, htake, h⟩ := Option.bind_eq_some_iff.mp h
      simp only [Option.pure_def, Option.some.injEq, Prod.mk.injEq] at h
      obtain ⟨rfl, rfl⟩ := h
      rw [List.cons_append, ih htake]
    · simp_all

/-- The run and the rest are what the list is made of. -/
theorem firstRun_perm {xs run rest : List α} (h : firstRun before? xs = some (run, rest)) :
    (run ++ rest).Perm xs := by
  match xs, h with
  | [], h => simp_all [firstRun]
  | [x], h => simp_all [firstRun]
  | x :: y :: ys, h =>
    simp only [firstRun, Option.bind_eq_bind, Option.bind_eq_some_iff] at h
    obtain ⟨falls, _, ⟨taken, left⟩, htake, h⟩ := h
    simp only [Option.pure_def, Option.some.injEq, Prod.mk.injEq] at h
    obtain ⟨rfl, rfl⟩ := h
    have whole : (x :: y :: taken) ++ left = x :: y :: ys := by
      rw [List.cons_append, List.cons_append, takeRun_append htake]
    split
    · exact ((List.reverse_perm _).append_right left).trans (.of_eq whole)
    · exact .of_eq whole

/-- Putting an element in loses none. -/
theorem insert_perm {run run' : List α} {x : α} (h : insert before? run x = some run') :
    run'.Perm (x :: run) := by
  simp only [insert, Option.bind_eq_bind, Option.bind_eq_some_iff] at h
  obtain ⟨place, _, h⟩ := h
  obtain rfl := Option.some.inj h
  exact List.perm_middle.trans (.of_eq (congrArg _ (List.take_append_drop place run)))

theorem foldlM_insert_perm {xs run run' : List α}
    (h : xs.foldlM (insert before?) run = some run') : run'.Perm (run ++ xs) := by
  induction xs generalizing run with
  | nil => simp_all
  | cons x xs ih =>
    simp only [List.foldlM_cons, Option.bind_eq_bind, Option.bind_eq_some_iff] at h
    obtain ⟨longer, hinsert, h⟩ := h
    exact (ih h).trans (((insert_perm hinsert).append_right xs).trans List.perm_middle.symm)

theorem nextRun_perm {shortest : Nat} {xs run rest : List α}
    (h : nextRun before? shortest xs = some (run, rest)) : (run ++ rest).Perm xs := by
  simp only [nextRun, Option.bind_eq_bind, Option.bind_eq_some_iff] at h
  obtain ⟨⟨first, left⟩, hfirst, longer, hinsert, h⟩ := h
  simp only [Option.pure_def, Option.some.injEq, Prod.mk.injEq] at h
  obtain ⟨rfl, rfl⟩ := h
  refine ((foldlM_insert_perm hinsert).append_right _).trans ?_
  rw [List.append_assoc, List.take_append_drop]
  exact firstRun_perm hfirst

end Sorting
end ContentDecl
