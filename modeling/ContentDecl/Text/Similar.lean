/-
# Texts that are alike

How much two texts share is measured in passages. The longest passage that
stands in both is taken, of several the one that comes first, and then those of
the parts before it and of the parts behind it in the same way. Texts are alike
if the characters of these passages, counted in both, make up three fifths of
them or more.

Key definitions: `Text.Passage`, `Text.longestPassage`, `Text.sharedLength`,
`Text.isLike`, `Text.mostLike`.
-/

namespace ContentDecl
namespace Text

/-- Where a passage starts in each of two texts, and its length. -/
structure Passage where
  start : Nat := 0
  otherStart : Nat := 0
  length : Nat := 0
  deriving DecidableEq, Repr, Inhabited

/-- How many characters two texts have in common at their start. -/
def commonStart : List Char → List Char → Nat
  | x :: xs, y :: ys => if x == y then commonStart xs ys + 1 else 0
  | _, _ => 0

/-- The longest passage, of those that start at one place of the first text,
from a place of the other text on. -/
def longestAt (start : Nat) (xs : List Char) : Nat → List Char → Passage → Passage
  | _, [], best => best
  | otherStart, y :: ys, best =>
    let length := commonStart xs (y :: ys)
    longestAt start xs (otherStart + 1) ys
      (if best.length < length then ⟨start, otherStart, length⟩ else best)

/-- The longest passage from a place of the first text on. -/
def longestFrom (ys : List Char) : Nat → List Char → Passage → Passage
  | _, [], best => best
  | start, x :: xs, best => longestFrom ys (start + 1) xs (longestAt start (x :: xs) 0 ys best)

/-- The longest passage of two texts. Of several it is the one that comes first
in the first text, and then in the other. -/
def longestPassage (xs ys : List Char) : Passage := longestFrom ys 0 xs {}

/-- How many characters two texts share, in passages taken in at most the given
number of steps on each side. -/
def sharedWithin : Nat → List Char → List Char → Nat
  | 0, _, _ => 0
  | steps + 1, xs, ys =>
    let passage := longestPassage xs ys
    if passage.length == 0 then 0
    else
      sharedWithin steps (xs.take passage.start) (ys.take passage.otherStart)
        + passage.length
        + sharedWithin steps (xs.drop (passage.start + passage.length))
            (ys.drop (passage.otherStart + passage.length))

/-- How many characters two texts share. Every step takes one of the first text
at least. -/
def sharedLength (s t : String) : Nat := sharedWithin s.length s.toList t.toList

/-- Whether two texts are alike. -/
def isLike (s t : String) : Bool := 3 * (s.length + t.length) ≤ 10 * sharedLength s t

/-- Whether the first of two texts has the larger part in common with a word.
Of two equal parts, that of the text later in order counts as larger. -/
def isCloser (word s t : String) : Bool :=
  let left := sharedLength s word * (t.length + word.length)
  let right := sharedLength t word * (s.length + word.length)
  right < left || (left == right && decide (t < s))

/-- The texts most like a word, the closest first. -/
def mostLike (count : Nat) (word : String) (texts : List String) : List String :=
  ((texts.filter fun s => isLike s word).mergeSort fun s t => !isCloser word t s).take count

end Text
end ContentDecl
