/-
# Sorting sees elements through their comparison

Elements are asked for nothing but their comparison. So the images of the elements of a
list under a function are sorted by a comparison as the elements are by the comparison of
their images: the same questions are asked, and the same places are moved. In particular
what else an element carries has no part in the order.

The statement is made for one function of the sorting after the other, each by the cases
or the recursion of the function, up from the search in a list (`atPlace_map`).

Key definitions: `Merging.map`, `Pending.map`, `meetingPower`.
Key theorems: `atPlace_map`, `nextRun_map`, `Merging.run_map`, `merge_map`, `sort?_map`.
-/
import ContentDecl.Sorting.Sort
import Mathlib.Algebra.GroupWithZero.Nat

namespace ContentDecl
namespace Sorting

variable {α β : Type} (f : α → β) (before? : β → β → Option Bool)

/-! ### Runs -/

theorem atPlace_map (xs : List α) (answer : β → Option Bool) :
    atPlace (xs.map f) answer = atPlace xs fun x => answer (f x) := by
  funext place
  unfold atPlace
  rw [List.getElem?_map]
  cases xs[place]? <;> rfl

theorem takeRun_map (falls : Bool) : ∀ (last : α) (xs : List α),
    takeRun before? falls (f last) (xs.map f)
      = (takeRun (fun a b => before? (f a) (f b)) falls last xs).map
          (Prod.map (List.map f) (List.map f))
  | _, [] => rfl
  | last, x :: xs => by
    have hrest := takeRun_map falls x xs
    rw [List.map_cons, takeRun, takeRun, hrest]
    cases before? (f x) (f last) with
    | none => rfl
    | some answer =>
      by_cases hanswer : answer = falls
      · cases takeRun (fun a b => before? (f a) (f b)) falls x xs <;> simp [hanswer]
      · simp [hanswer]

theorem firstRun_map : ∀ xs : List α,
    firstRun before? (xs.map f)
      = (firstRun (fun a b => before? (f a) (f b)) xs).map (Prod.map (List.map f) (List.map f))
  | [] => rfl
  | [_] => rfl
  | x :: y :: ys => by
    rw [List.map_cons, List.map_cons, firstRun, firstRun]
    cases before? (f y) (f x) with
    | none => rfl
    | some falls =>
      simp only [Option.bind_eq_bind, Option.bind_some, takeRun_map]
      cases takeRun (fun a b => before? (f a) (f b)) falls y ys with
      | none => rfl
      | some found => cases falls <;> simp

theorem insert_map (run : List α) (x : α) :
    insert before? (run.map f) (f x)
      = (insert (fun a b => before? (f a) (f b)) run x).map (List.map f) := by
  unfold insert
  rw [atPlace_map, List.length_map]
  cases bisect (atPlace run fun y => not <$> before? (f x) (f y)) run.length 0 run.length with
  | none => rfl
  | some place => simp [List.map_take, List.map_drop]

theorem foldlM_insert_map : ∀ (xs run : List α),
    (xs.map f).foldlM (insert before?) (run.map f)
      = (xs.foldlM (insert fun a b => before? (f a) (f b)) run).map (List.map f)
  | [], _ => rfl
  | x :: xs, run => by
    rw [List.map_cons, List.foldlM_cons, List.foldlM_cons, insert_map]
    cases insert (fun a b => before? (f a) (f b)) run x with
    | none => rfl
    | some longer => exact foldlM_insert_map xs longer

theorem nextRun_map (shortest : Nat) (xs : List α) :
    nextRun before? shortest (xs.map f)
      = (nextRun (fun a b => before? (f a) (f b)) shortest xs).map
          (Prod.map (List.map f) (List.map f)) := by
  unfold nextRun
  rw [firstRun_map]
  cases firstRun (fun a b => before? (f a) (f b)) xs with
  | none => rfl
  | some found =>
    obtain ⟨run, rest⟩ := found
    have hinsert := foldlM_insert_map f before? (rest.take (shortest - run.length)) run
    simp only [Option.map_some, Option.bind_eq_bind, Option.bind_some, Prod.map_apply,
      List.length_map, ← List.map_take, hinsert]
    cases (rest.take (shortest - run.length)).foldlM
        (insert fun a b => before? (f a) (f b)) run with
    | none => rfl
    | some longer => simp [List.map_drop]

/-! ### Merges -/

namespace Merging

variable (direction : Direction)

/-- The merge of the images of two runs, as far as it has come. -/
def map (m : Merging α) : Merging β := ⟨m.merged.map f, m.left.map f, m.right.map f⟩

theorem takeLeft_map (m : Merging α) (count : Nat) :
    (m.map f).takeLeft count = (m.takeLeft count).map f := by
  simp [takeLeft, map, List.map_take, List.map_drop]

theorem takeRight_map (m : Merging α) (count : Nat) :
    (m.map f).takeRight count = (m.takeRight count).map f := by
  simp [takeRight, map, List.map_take, List.map_drop]

theorem isOver_map (m : Merging α) : (m.map f).isOver direction = m.isOver direction := by
  cases direction <;> simp only [isOver, map, ← List.map_drop, List.isEmpty_map]

theorem close_map (m : Merging α) :
    (m.map f).close direction = (m.close direction).map f := by
  cases direction <;> simp [close, map]

theorem rowLength_map (passes : β → Option Bool) (xs : List α) :
    rowLength direction passes (xs.map f) = rowLength direction (fun x => passes (f x)) xs := by
  cases direction with
  | fromFront => simp only [rowLength, atPlace_map, List.length_map]
  | fromBack => simp only [rowLength, ← List.map_reverse, atPlace_map, List.length_map]

theorem leftGoes_map (x y : α) : leftGoes before? direction (f x) (f y)
    = leftGoes (fun a b => before? (f a) (f b)) direction x y := by
  cases direction <;> rfl

theorem gallopLeft_map (m : Merging α) :
    gallopLeft before? direction (m.map f)
      = (gallopLeft (fun a b => before? (f a) (f b)) direction m).map (Prod.map id (map f)) := by
  obtain ⟨merged, left, right⟩ := m
  cases right with
  | nil => rfl
  | cons y ys =>
    simp only [gallopLeft, map, List.map_cons, rowLength_map, leftGoes_map]
    cases rowLength direction
        (fun x => leftGoes (fun a b => before? (f a) (f b)) direction x y) left with
    | none => rfl
    | some row =>
      have hmoved := takeLeft_map f ⟨merged, left, y :: ys⟩ row
      exact congrArg (fun moved => some (row, moved)) hmoved

theorem gallopRight_map (m : Merging α) :
    gallopRight before? direction (m.map f)
      = (gallopRight (fun a b => before? (f a) (f b)) direction m).map (Prod.map id (map f)) := by
  obtain ⟨merged, left, right⟩ := m
  cases left with
  | nil => rfl
  | cons x xs =>
    simp only [gallopRight, map, List.map_cons, rowLength_map, leftGoes_map]
    cases rowLength direction
        (fun y => not <$> leftGoes (fun a b => before? (f a) (f b)) direction x y) right with
    | none => rfl
    | some row =>
      have hmoved := takeRight_map f ⟨merged, x :: xs, right⟩ row
      exact congrArg (fun moved => some (row, moved)) hmoved

theorem gallopBoth_map (m : Merging α) :
    gallopBoth before? direction (m.map f)
      = (gallopBoth (fun a b => before? (f a) (f b)) direction m).map (Prod.map id (map f)) := by
  unfold gallopBoth
  rw [gallopLeft_map]
  cases gallopLeft (fun a b => before? (f a) (f b)) direction m with
  | none => rfl
  | some found =>
    obtain ⟨leftRow, m₁⟩ := found
    simp only [Option.map_some, Option.bind_eq_bind, Option.bind_some, Prod.map_apply, id_eq,
      isOver_map, takeRight_map, gallopRight_map]
    by_cases hleft : m₁.isOver direction = true
    · simp [hleft]
    by_cases hone : (m₁.takeRight 1).isOver direction = true
    · simp [hleft, hone]
    cases gallopRight (fun a b => before? (f a) (f b)) direction (m₁.takeRight 1) with
    | none => simp [hleft, hone]
    | some found =>
      obtain ⟨rightRow, m₂⟩ := found
      by_cases hright : m₂.isOver direction = true
      · simp [hleft, hone, hright, isOver_map]
      · simp [hleft, hone, hright, isOver_map, takeLeft_map]

/-- Both merges have the same patience left, and have moved the same. -/
theorem finish_map : ∀ (rounds : Nat) (pace : Pace) (patience : Nat) (m : Merging α),
    finish before? direction rounds pace patience (m.map f)
      = (finish (fun a b => before? (f a) (f b)) direction rounds pace patience m).map
          (Prod.map id (map f))
  | 0, _, _, _ => rfl
  | rounds + 1, .galloping, patience, m => by
    simp only [finish, gallopBoth_map]
    cases gallopBoth (fun a b => before? (f a) (f b)) direction m with
    | none => rfl
    | some found =>
      obtain ⟨row, m'⟩ := found
      simp only [Option.map_some, Option.bind_eq_bind, Option.bind_some, Prod.map_apply, id_eq,
        isOver_map, finish_map rounds]
      by_cases hover : m'.isOver direction = true
      · simp [hover]
      · by_cases hlong : longRow ≤ row <;> simp [hover, hlong]
  | rounds + 1, .walking leftRow rightRow, patience, m => by
    have hmapLeft : (m.map f).left = m.left.map f := rfl
    have hmapRight : (m.map f).right = m.right.map f := rfl
    simp only [finish, hmapLeft, hmapRight]
    cases hleft : m.left with
    | nil => rfl
    | cons x xs =>
      cases hright : m.right with
      | nil => rfl
      | cons y ys =>
        simp only [List.map_cons, leftGoes_map, Option.bind_eq_bind]
        cases leftGoes (fun a b => before? (f a) (f b)) direction x y with
        | none => rfl
        | some goes =>
          cases goes with
          | true =>
            simp only [Option.bind_some, if_true, takeLeft_map, isOver_map, finish_map rounds]
            by_cases hover : (m.takeLeft 1).isOver direction = true
            · simp [hover]
            · by_cases hrow : patience ≤ leftRow + 1 <;> simp [hover, hrow]
          | false =>
            simp only [Option.bind_some, Bool.false_eq_true, if_false, takeRight_map, isOver_map,
              finish_map rounds]
            by_cases hover : (m.takeRight 1).isOver direction = true
            · simp [hover]
            · by_cases hrow : patience ≤ rightRow + 1 <;> simp [hover, hrow]

theorem run_map (patience : Nat) (m : Merging α) :
    (m.map f).run before? direction patience
      = (m.run (fun a b => before? (f a) (f b)) direction patience).map
          (Prod.map id (List.map f)) := by
  have hmapLeft : (m.map f).left.length = m.left.length := List.length_map f
  have hmapRight : (m.map f).right.length = m.right.length := List.length_map f
  simp only [run, isOver_map, close_map, hmapLeft, hmapRight, finish_map]
  by_cases hover : m.isOver direction = true
  · simp [hover]
  · cases finish (fun a b => before? (f a) (f b)) direction (m.left.length + m.right.length)
        (.walking 0 0) patience m with
    | none => simp [hover]
    | some found => simp [hover, close_map]

end Merging

theorem mergeMoved_map (patience : Nat) (xs ys : List α) :
    mergeMoved before? patience (xs.map f) (ys.map f)
      = (mergeMoved (fun a b => before? (f a) (f b)) patience xs ys).map
          (Prod.map id (List.map f)) := by
  have hfront : (⟨[], xs.map f, ys.map f⟩ : Merging β) = Merging.map f ⟨[], xs, ys⟩ := rfl
  have hback : (⟨[], (xs.map f).reverse, (ys.map f).reverse⟩ : Merging β)
      = Merging.map f ⟨[], xs.reverse, ys.reverse⟩ := by
    simp [Merging.map]
  unfold mergeMoved
  rw [hfront, hback, Merging.takeRight_map, Merging.takeLeft_map, Merging.run_map,
    Merging.run_map, List.length_map, List.length_map]
  by_cases hshort : xs.length ≤ ys.length <;> simp [hshort]

/-- Runs of images are merged as the runs are. -/
theorem merge_map (patience : Nat) (xs ys : List α) :
    merge before? patience (xs.map f) (ys.map f)
      = (merge (fun a b => before? (f a) (f b)) patience xs ys).map (Prod.map id (List.map f)) := by
  cases ys with
  | nil => rfl
  | cons y ys =>
    have hstart : atPlace (xs.map f) (fun x => not <$> before? (f y) x)
        = atPlace xs fun x => not <$> before? (f y) (f x) := atPlace_map f xs _
    simp only [merge, List.map_cons, hstart, List.length_map]
    cases boundary (atPlace xs fun x => not <$> before? (f y) (f x)) xs.length 0 with
    | none => rfl
    | some start =>
      simp only [Option.bind_eq_bind, Option.bind_some, ← List.map_drop, List.getLast?_map]
      cases (xs.drop start).getLast? with
      | none => simp
      | some x =>
        have hstop : atPlace (f y :: ys.map f) (fun y => before? y (f x))
            = atPlace (y :: ys) fun y => before? (f y) (f x) := atPlace_map f (y :: ys) _
        simp only [Option.map_some, hstop, List.length_cons, List.length_map]
        cases boundary (atPlace (y :: ys) fun y => before? (f y) (f x)) (ys.length + 1)
            (ys.length + 1 - 1) with
        | none => rfl
        | some stop =>
          have hmoved := mergeMoved_map f before? patience (xs.drop start) ((y :: ys).take stop)
          rw [List.map_take, List.map_cons] at hmoved
          simp only [Option.bind_some, hmoved]
          by_cases hnone : (stop == 0) = true
          · simp [hnone]
          · cases mergeMoved (fun a b => before? (f a) (f b)) patience (xs.drop start)
                ((y :: ys).take stop) with
            | none => simp [hnone]
            | some found =>
              have hrest : (f y :: ys.map f).drop stop = ((y :: ys).drop stop).map f := by
                rw [List.map_drop, List.map_cons]
              simp only [Option.map_some, Option.bind_some, hrest, if_neg hnone, ← List.map_take,
                Prod.map_fst, Prod.map_snd, id_eq, Option.pure_def]
              simp only [← List.map_append, Prod.map_apply, id_eq]

/-! ### Sorting -/

/-- A run of images that waits. -/
def Pending.map (pending : Pending α) : Pending β := ⟨pending.run.map f, pending.power⟩

theorem mergeBack_map (power : Nat) : ∀ (patience : Nat) (run : List α)
    (waiting : List (Pending α)),
    mergeBack before? power patience (run.map f) (waiting.map (Pending.map f))
      = (mergeBack (fun a b => before? (f a) (f b)) power patience run waiting).map
          (Prod.map id (Prod.map (List.map f) (List.map (Pending.map f))))
  | _, _, [] => rfl
  | patience, run, last :: earlier => by
    have hrun : (last.map f).run = last.run.map f := rfl
    have hpower : (last.map f).power = last.power := rfl
    simp only [List.map_cons, mergeBack, hrun, hpower, merge_map]
    by_cases hless : power < last.power
    · cases merge (fun a b => before? (f a) (f b)) patience last.run run with
      | none => simp [hless]
      | some merged => simp [hless, mergeBack_map power]
    · simp [hless]

theorem mergeAll_map : ∀ (steps patience : Nat) (runs : List (List α)),
    mergeAll before? steps patience (runs.map (List.map f))
      = (mergeAll (fun a b => before? (f a) (f b)) steps patience runs).map (List.map f)
  | 0, _, runs => by simp [mergeAll, List.map_flatten]
  | steps + 1, _, [] => rfl
  | steps + 1, _, [xs] => by simp [mergeAll]
  | steps + 1, patience, [ys, xs] => by
    simp only [List.map_cons, List.map_nil, mergeAll, merge_map]
    cases merge (fun a b => before? (f a) (f b)) patience xs ys with
    | none => rfl
    | some found => simp
  | steps + 1, patience, zs :: ys :: xs :: earlier => by
    simp only [List.map_cons, mergeAll, merge_map, List.length_map]
    by_cases hshort : xs.length < zs.length
    · cases merge (fun a b => before? (f a) (f b)) patience xs ys with
      | none => simp [hshort]
      | some found =>
        have hrest := mergeAll_map steps found.1 (zs :: found.2 :: earlier)
        simpa [hshort] using hrest
    · cases merge (fun a b => before? (f a) (f b)) patience ys zs with
      | none => simp [hshort]
      | some found =>
        have hrest := mergeAll_map steps found.1 (found.2 :: xs :: earlier)
        simpa [hshort] using hrest

/-- The power at which a run meets the next one, with other runs waiting before it. -/
def meetingPower (whole : Nat) (run next : List α) (waiting : List (Pending α)) : Nat :=
  let middle := 2 * (waiting.map (·.run.length)).sum + run.length
  power whole whole middle (middle + run.length + next.length)

theorem meetingPower_map (whole : Nat) (run next : List α) (waiting : List (Pending α)) :
    meetingPower whole (run.map f) (next.map f) (waiting.map (Pending.map f))
      = meetingPower whole run next waiting := by
  simp [meetingPower, Pending.map, Function.comp_def]

/-- One step of the sorting: the next run is found, and runs that wait are merged. -/
theorem sortRest_cons (whole steps patience : Nat) (run : List β) (waiting : List (Pending β))
    (x : β) (rest : List β) :
    sortRest before? whole (steps + 1) patience run waiting (x :: rest)
      = (nextRun before? (shortestRun whole) (x :: rest)).bind fun found =>
          (mergeBack before? (meetingPower whole run found.1 waiting) patience run waiting).bind
            fun merged => sortRest before? whole steps merged.1 found.1
              (⟨merged.2.1, meetingPower whole run found.1 waiting⟩ :: merged.2.2) found.2 :=
  rfl

theorem sortRest_map (whole : Nat) : ∀ (steps patience : Nat) (run : List α)
    (waiting : List (Pending α)) (rest : List α),
    sortRest before? whole steps patience (run.map f) (waiting.map (Pending.map f)) (rest.map f)
      = (sortRest (fun a b => before? (f a) (f b)) whole steps patience run waiting rest).map
          (List.map f) := by
  have hlast : ∀ (patience : Nat) (run : List α) (waiting : List (Pending α)) (rest : List α), (do
      return (← mergeAll before? (waiting.map (Pending.map f)).length patience
        (run.map f :: (waiting.map (Pending.map f)).map (·.run))) ++ rest.map f)
        = (do
          return (← mergeAll (fun a b => before? (f a) (f b)) waiting.length patience
            (run :: waiting.map (·.run))) ++ rest : Option (List α)).map (List.map f) := by
    intro patience run waiting rest
    have hruns : run.map f :: (waiting.map (Pending.map f)).map (·.run)
        = (run :: waiting.map (·.run)).map (List.map f) := by
      simp [Pending.map]
    rw [hruns, mergeAll_map, List.length_map]
    cases mergeAll (fun a b => before? (f a) (f b)) waiting.length patience
        (run :: waiting.map (·.run)) <;> simp
  intro steps
  induction steps with
  | zero => exact hlast
  | succ steps ih =>
    intro patience run waiting rest
    cases rest with
    | nil => exact hlast patience run waiting []
    | cons x rest =>
      have hnext := nextRun_map f before? (shortestRun whole) (x :: rest)
      rw [List.map_cons] at hnext
      rw [List.map_cons, sortRest_cons, sortRest_cons, hnext]
      cases nextRun (fun a b => before? (f a) (f b)) (shortestRun whole) (x :: rest) with
      | none => rfl
      | some found =>
        obtain ⟨next, rest'⟩ := found
        simp only [Option.map_some, Option.bind_some, Prod.map_apply, meetingPower_map,
          mergeBack_map]
        cases mergeBack (fun a b => before? (f a) (f b)) (meetingPower whole run next waiting)
            patience run waiting with
        | none => rfl
        | some merged =>
          obtain ⟨patience', run', waiting'⟩ := merged
          exact ih patience' next (⟨run', meetingPower whole run next waiting⟩ :: waiting') rest'

/-- **The images of elements are sorted as the elements are.** -/
theorem sort?_map (xs : List α) :
    sort? before? (xs.map f) = (sort? (fun a b => before? (f a) (f b)) xs).map (List.map f) := by
  unfold sort?
  rw [List.length_map, nextRun_map]
  cases nextRun (fun a b => before? (f a) (f b)) (shortestRun xs.length) xs with
  | none => rfl
  | some found =>
    obtain ⟨run, rest⟩ := found
    have hrest := sortRest_map f before? xs.length rest.length firstPatience run [] rest
    simpa using hrest

end Sorting
end ContentDecl
