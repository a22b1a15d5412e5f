/-
# Searching for a boundary

Of the places of a sorted list, those below some bound come first. The first
place that is not below it is found by bisection. If it is expected near some
place, the search starts there and doubles its distance at every step, until
the boundary is passed, and only what lies between the last two steps is
bisected. This is galloping.

Places are asked one by one whether they are below, and an answer may be
missing; then there is no result.

Key definitions: `Sorting.bisect`, `Sorting.stretch`, `Sorting.boundary`.
-/

namespace ContentDecl
namespace Sorting

/-- The first place from `low` on, and before `high`, that is not below, or
`high`; in at most the given number of halvings. -/
def bisect (isBelow : Nat → Option Bool) : Nat → Nat → Nat → Option Nat
  | 0, low, _ => some low
  | steps + 1, low, high =>
    if low < high then do
      let middle := low + (high - low) / 2
      if ← isBelow middle then bisect isBelow steps (middle + 1) high
      else bisect isBelow steps low middle
    else some low

/-- Doubles a distance until it is no longer near or reaches the limit. Gives
the last distance that is near and the first that need not be. -/
def stretch (isNear : Nat → Option Bool) (limit : Nat) :
    Nat → Nat → Nat → Option (Nat × Nat)
  | 0, near, far => some (near, far)
  | steps + 1, near, far =>
    if far < limit then do
      if ← isNear far then stretch isNear limit steps far (2 * far + 1) else some (near, far)
    else some (near, limit)

/-- The first of `size` places that is not below, or `size`, searched from the
place `start` on. No search takes more steps than there are places. -/
def boundary (isBelow : Nat → Option Bool) (size start : Nat) : Option Nat := do
  if ← isBelow start then
    let (near, far) ← stretch (fun distance => isBelow (start + distance)) (size - start) size 0 1
    bisect isBelow size (start + near + 1) (start + far)
  else
    let (near, far) ←
      stretch (fun distance => not <$> isBelow (start - distance)) (start + 1) size 0 1
    bisect isBelow size (start + 1 - far) (start - near)

/-- The answer for the element at a place; there is nothing below at a place
without one. -/
def atPlace {α : Type} (xs : List α) (answer : α → Option Bool) (place : Nat) : Option Bool :=
  (xs[place]?).elim (some false) answer

end Sorting
end ContentDecl
