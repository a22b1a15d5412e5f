/-
# Merging two runs

What of the left run goes before all of the right one, and what of the right
run goes behind all of the left one, stays where it is. The rest is merged from
the front if the left run is the shorter one, and from the back otherwise, so
that the shorter run is the one to be used up last. Of it the last element is
never asked for: it goes behind what is left of the other.

Elements are compared one by one, until so many in a row came from one run that
its patience is over. Then both runs are galloped in turn, as long as that moves
many elements at once; while it does, the patience shrinks, and when it stops
doing so, it grows. The patience is kept from one merge to the next.

Key definitions: `Sorting.Direction`, `Sorting.Merging`, `Sorting.Merging.finish`,
`Sorting.merge`.
Key theorems: `Sorting.merge_perm`.
-/
import ContentDecl.Sorting.Search

namespace ContentDecl
namespace Sorting

/-- From where two runs are merged. -/
inductive Direction where
  | fromFront
  | fromBack
  deriving DecidableEq, Repr

/-- Two runs being merged. All three lists start with what is next to the place
of the merge: what was merged last, and what is next in either run. -/
structure Merging (α : Type) where
  merged : List α := []
  left : List α
  right : List α

/-- How elements are moved: one at a time, with so many in a row from the left
or from the right run, or galloping. -/
inductive Pace where
  | walking (leftRow rightRow : Nat)
  | galloping

/-- The patience at the start. -/
def firstPatience : Nat := 7

/-- How many elements galloping has to move at once to go on. -/
def longRow : Nat := 7

namespace Merging

variable {α : Type}

/-- All elements, in any order. -/
def elements (m : Merging α) : List α := m.merged ++ (m.left ++ m.right)

def takeLeft (m : Merging α) (count : Nat) : Merging α :=
  { m with merged := (m.left.take count).reverse ++ m.merged, left := m.left.drop count }

def takeRight (m : Merging α) (count : Nat) : Merging α :=
  { m with merged := (m.right.take count).reverse ++ m.merged, right := m.right.drop count }

/-- Whether what is left need not be compared: one run is used up, or one
element is left of the run to be used up last. -/
def isOver (direction : Direction) (m : Merging α) : Bool :=
  match direction with
  | .fromFront => m.right.isEmpty || (m.left.drop 1).isEmpty
  | .fromBack => m.left.isEmpty || (m.right.drop 1).isEmpty

/-- The merged run, with what is left behind it. -/
def close (direction : Direction) (m : Merging α) : List α :=
  match direction with
  | .fromFront => m.merged.reverse ++ (m.right ++ m.left)
  | .fromBack => (m.left ++ m.right).reverse ++ m.merged

variable (before? : α → α → Option Bool)

/-- Whether an element of the left run is moved before one of the right run. -/
def leftGoes (direction : Direction) (x y : α) : Option Bool :=
  match direction with
  | .fromFront => not <$> before? y x
  | .fromBack => before? y x

/-- How many elements at the start of a list pass a test, by galloping. The list
is searched in ascending order. -/
def rowLength (direction : Direction) (passes : α → Option Bool) (xs : List α) :
    Option Nat :=
  match direction with
  | .fromFront => boundary (atPlace xs passes) xs.length 0
  | .fromBack => do
    let place ← boundary (atPlace xs.reverse fun x => not <$> passes x) xs.length (xs.length - 1)
    return xs.length - place

/-- Moves what of the left run goes before the next of the right run. -/
def gallopLeft (direction : Direction) (m : Merging α) : Option (Nat × Merging α) :=
  match m.right with
  | [] => some (0, m)
  | y :: _ => do
    let row ← rowLength direction (fun x => leftGoes before? direction x y) m.left
    return (row, m.takeLeft row)

/-- Moves what of the right run goes before the next of the left run. -/
def gallopRight (direction : Direction) (m : Merging α) : Option (Nat × Merging α) :=
  match m.left with
  | [] => some (0, m)
  | x :: _ => do
    let row ← rowLength direction (fun y => not <$> leftGoes before? direction x y) m.right
    return (row, m.takeRight row)

/-- Gallops the left run and moves one element of the right, and then the other
way round. Gives the longer of the two rows. -/
def gallopBoth (direction : Direction) (m : Merging α) : Option (Nat × Merging α) := do
  let (leftRow, m) ← gallopLeft before? direction m
  if m.isOver direction then return (leftRow, m)
  let m := m.takeRight 1
  if m.isOver direction then return (leftRow, m)
  let (rightRow, m) ← gallopRight before? direction m
  if m.isOver direction then return (max leftRow rightRow, m)
  return (max leftRow rightRow, m.takeLeft 1)

/-- Merges until nothing has to be compared, in at most the given number of
rounds, and gives the patience that is left. -/
def finish (direction : Direction) : Nat → Pace → Nat → Merging α → Option (Nat × Merging α)
  | 0, _, patience, m => some (patience, m)
  | rounds + 1, .galloping, patience, m => do
    let (row, m) ← gallopBoth before? direction m
    if m.isOver direction then return (patience, m)
    else if longRow ≤ row then finish direction rounds .galloping (max 1 (patience - 1)) m
    else finish direction rounds (.walking 0 0) (patience + 1) m
  | rounds + 1, .walking leftRow rightRow, patience, m =>
    match m.left, m.right with
    | x :: _, y :: _ => do
      let goes ← leftGoes before? direction x y
      let m := if goes then m.takeLeft 1 else m.takeRight 1
      let leftRow := if goes then leftRow + 1 else 0
      let rightRow := if goes then 0 else rightRow + 1
      if m.isOver direction then return (patience, m)
      else if patience ≤ max leftRow rightRow then finish direction rounds .galloping patience m
      else finish direction rounds (.walking leftRow rightRow) patience m
    | _, _ => some (patience, m)

/-- Merges all that is left. Every round moves an element. -/
def run (direction : Direction) (patience : Nat) (m : Merging α) : Option (Nat × List α) :=
  if m.isOver direction then some (patience, m.close direction)
  else do
    let rounds := m.left.length + m.right.length
    let (patience, m) ← finish before? direction rounds (.walking 0 0) patience m
    return (patience, m.close direction)

end Merging

variable {α : Type} (before? : α → α → Option Bool)

/-- Merges two runs that both have to be moved. The first to be moved is known:
the next of the longer run. -/
def mergeMoved (patience : Nat) (xs ys : List α) : Option (Nat × List α) :=
  if xs.length ≤ ys.length then
    (Merging.takeRight ⟨[], xs, ys⟩ 1).run before? .fromFront patience
  else (Merging.takeLeft ⟨[], xs.reverse, ys.reverse⟩ 1).run before? .fromBack patience

/-- Merges two runs. -/
def merge (patience : Nat) (xs ys : List α) : Option (Nat × List α) :=
  match ys with
  | [] => some (patience, xs)
  | y :: _ => do
    let start ← boundary (atPlace xs fun x => not <$> before? y x) xs.length 0
    match (xs.drop start).getLast? with
    | none => return (patience, xs ++ ys)
    | some x => do
      let stop ← boundary (atPlace ys fun y => before? y x) ys.length (ys.length - 1)
      if stop == 0 then return (patience, xs ++ ys)
      else
        let (patience, moved) ← mergeMoved before? patience (xs.drop start) (ys.take stop)
        return (patience, xs.take start ++ (moved ++ ys.drop stop))

/-! ### Merging loses no element -/

namespace Merging

variable {before?} {direction : Direction} {m m' : Merging α}

/-- Elements that are moved from a run to those already merged stay in it. -/
theorem move_perm (count : Nat) (merged xs ys : List α) :
    ((xs.take count).reverse ++ merged ++ (xs.drop count ++ ys)).Perm (merged ++ (xs ++ ys)) := by
  refine (((List.reverse_perm _).append_right merged).append_right _).trans ?_
  refine (List.perm_append_comm.append_right _).trans (.of_eq ?_)
  rw [List.append_assoc, ← List.append_assoc (xs.take count), List.take_append_drop]

theorem takeLeft_perm (m : Merging α) (count : Nat) :
    (m.takeLeft count).elements.Perm m.elements :=
  move_perm count m.merged m.left m.right

theorem takeRight_perm (m : Merging α) (count : Nat) :
    (m.takeRight count).elements.Perm m.elements :=
  (List.perm_append_comm.append_left _).trans
    ((move_perm count m.merged m.right m.left).trans (List.perm_append_comm.append_left _))

theorem close_perm (direction : Direction) (m : Merging α) :
    (m.close direction).Perm m.elements := by
  cases direction with
  | fromFront => exact (List.reverse_perm _).append List.perm_append_comm
  | fromBack => exact ((List.reverse_perm _).append_right _).trans List.perm_append_comm

theorem gallopLeft_perm {row : Nat} (h : gallopLeft before? direction m = some (row, m')) :
    m'.elements.Perm m.elements := by
  unfold gallopLeft at h
  split at h
  · simp_all
  · obtain ⟨_, _, h⟩ := Option.bind_eq_some_iff.mp h
    simp only [Option.pure_def, Option.some.injEq, Prod.mk.injEq] at h
    obtain ⟨_, rfl⟩ := h
    exact takeLeft_perm m _

theorem gallopRight_perm {row : Nat} (h : gallopRight before? direction m = some (row, m')) :
    m'.elements.Perm m.elements := by
  unfold gallopRight at h
  split at h
  · simp_all
  · obtain ⟨_, _, h⟩ := Option.bind_eq_some_iff.mp h
    simp only [Option.pure_def, Option.some.injEq, Prod.mk.injEq] at h
    obtain ⟨_, rfl⟩ := h
    exact takeRight_perm m _

theorem gallopBoth_perm {row : Nat} (h : gallopBoth before? direction m = some (row, m')) :
    m'.elements.Perm m.elements := by
  simp only [gallopBoth, Option.bind_eq_bind, Option.bind_eq_some_iff] at h
  obtain ⟨⟨_, m₁⟩, hleft, h⟩ := h
  refine .trans ?_ (gallopLeft_perm hleft)
  split at h
  · simp_all
  refine .trans ?_ (takeRight_perm m₁ 1)
  split at h
  · simp_all
  obtain ⟨⟨_, m₂⟩, hright, h⟩ := Option.bind_eq_some_iff.mp h
  refine .trans ?_ (gallopRight_perm hright)
  split at h
  · simp_all
  · simp only [Option.pure_def, Option.some.injEq, Prod.mk.injEq] at h
    obtain ⟨_, rfl⟩ := h
    exact takeLeft_perm m₂ 1

theorem finish_perm {rounds patience patience' : Nat} {pace : Pace}
    (h : finish before? direction rounds pace patience m = some (patience', m')) :
    m'.elements.Perm m.elements := by
  induction rounds generalizing pace patience m with
  | zero => simp_all [finish]
  | succ rounds ih =>
    cases pace with
    | galloping =>
      simp only [finish, Option.bind_eq_bind, Option.bind_eq_some_iff] at h
      obtain ⟨⟨_, m₁⟩, hboth, h⟩ := h
      refine .trans ?_ (gallopBoth_perm hboth)
      split at h
      · simp_all
      split at h <;> exact ih h
    | walking leftRow rightRow =>
      simp only [finish] at h
      split at h
      · obtain ⟨goes, _, h⟩ := Option.bind_eq_some_iff.mp h
        cases goes with
        | true =>
          refine .trans ?_ (takeLeft_perm m 1)
          simp only [if_pos] at h
          split at h
          · simp_all
          split at h <;> exact ih h
        | false =>
          refine .trans ?_ (takeRight_perm m 1)
          simp only [Bool.false_eq_true, if_false] at h
          split at h
          · simp_all
          split at h <;> exact ih h
      · simp_all

theorem run_perm {patience patience' : Nat} {xs : List α}
    (h : m.run before? direction patience = some (patience', xs)) : xs.Perm m.elements := by
  unfold run at h
  split at h
  · simp only [Option.some.injEq, Prod.mk.injEq] at h
    obtain ⟨_, rfl⟩ := h
    exact close_perm direction m
  · obtain ⟨⟨_, m₁⟩, hfinish, h⟩ := Option.bind_eq_some_iff.mp h
    simp only [Option.pure_def, Option.some.injEq, Prod.mk.injEq] at h
    obtain ⟨_, rfl⟩ := h
    exact (close_perm direction m₁).trans (finish_perm hfinish)

end Merging

variable {before?}

theorem mergeMoved_perm {patience patience' : Nat} {xs ys zs : List α}
    (h : mergeMoved before? patience xs ys = some (patience', zs)) : zs.Perm (xs ++ ys) := by
  unfold mergeMoved at h
  split at h
  · exact (Merging.run_perm h).trans (Merging.takeRight_perm _ 1)
  · refine (Merging.run_perm h).trans ((Merging.takeLeft_perm _ 1).trans ?_)
    exact (List.reverse_perm xs).append (List.reverse_perm ys)

/-- Merging loses no element and adds none. -/
theorem merge_perm {patience patience' : Nat} {xs ys zs : List α}
    (h : merge before? patience xs ys = some (patience', zs)) : zs.Perm (xs ++ ys) := by
  unfold merge at h
  split at h
  · simp_all
  obtain ⟨start, _, h⟩ := Option.bind_eq_some_iff.mp h
  split at h
  · simp_all
  obtain ⟨stop, _, h⟩ := Option.bind_eq_some_iff.mp h
  split at h
  · simp_all
  obtain ⟨⟨_, moved⟩, hmoved, h⟩ := Option.bind_eq_some_iff.mp h
  simp only [Option.pure_def, Option.some.injEq, Prod.mk.injEq] at h
  obtain ⟨_, rfl⟩ := h
  refine (((mergeMoved_perm hmoved).append_right _).append_left _).trans (.of_eq ?_)
  rw [List.append_assoc, List.take_append_drop, ← List.append_assoc, List.take_append_drop]

end Sorting
end ContentDecl
