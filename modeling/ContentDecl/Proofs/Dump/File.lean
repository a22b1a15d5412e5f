/-
# What a file says

A file is text in UTF-8 whose lines may end in any way, and such a text may spell a value.
A schema is read from what the file of a dump says, if that is an object, and options are
read from what a settings file says (`ofBytes_eq_ok_iff`, `Options.ofBytes_eq_ok_iff`).

Two things keep a text from being read as it stands. Half of a surrogate pair alone is no
character, so that no text of this library has it. And a reader that keeps what is open on
a stack cannot go down at will. What comes of a file is told for readable texts only, which
have no such half and are not nested deeper than `nestingLimit`.

Key definitions: `Json.nesting`, `Json.Readable`, `Dump.Says`.
Key theorems: `textOf_eq_ok_iff`, `ofBytes_eq_ok_iff`, `Options.ofBytes_eq_ok_iff`.
-/
import ContentDecl.Dump.File
import ContentDecl.Proofs.Result

namespace ContentDecl

open Result

/-! ### Readable texts -/

namespace Json

/-- How deep brackets are nested from a place of a text on, at which some are open. The
place may be in a literal, where brackets are characters like others. -/
def nestingFrom : Bool → Nat → List Char → Nat
  | _, depth, [] => depth
  | true, depth, '\\' :: _ :: rest => nestingFrom true depth rest
  | true, depth, c :: rest => nestingFrom (c != '\x22') depth rest
  | false, depth, c :: rest =>
    if c == '\x22' then nestingFrom true depth rest
    else if c == '[' || c == '\x7b' then nestingFrom false (depth + 1) rest
    else if c == ']' || c == '\x7d' then max depth (nestingFrom false (depth - 1) rest)
    else nestingFrom false depth rest

def nesting (cs : List Char) : Nat := nestingFrom false 0 cs

example : nesting "[\x7b\"[\\\"[\": []\x7d, []]".toList = 3 := by decide

/-- Texts that are nested deeper may be too deep for a reader. -/
def nestingLimit : Nat := 500

/-- A text without halves of surrogate pairs in the values that it spells, and not nested
too deep. -/
structure Readable (cs : List Char) : Prop where
  paired : decode cs ≠ .error .loneSurrogate
  shallow : nesting cs ≤ nestingLimit

theorem Readable.of_decode {cs : List Char} {v : Json} (h : decode cs = .ok v)
    (hshallow : nesting cs ≤ nestingLimit) : Readable cs := by
  refine ⟨?_, hshallow⟩
  rw [h]
  nofun

end Json

/-! ### Files -/

namespace Dump

theorem fromUTF8?_eq_some_iff {bytes : ByteArray} {s : String} :
    String.fromUTF8? bytes = some s ↔ bytes = s.toUTF8 := by
  constructor
  · intro h
    unfold String.fromUTF8? at h
    split at h
    · obtain rfl := Option.some.inj h
      rfl
    · cases h
  · rintro rfl
    exact dif_pos s.isValidUTF8

/-- What is written of a text is read as the text, but for the ends of its lines. -/
theorem textOf_toUTF8 (s : String) : textOf s.toUTF8 = .ok (Json.unifyLines s.toList) := by
  rw [textOf, fromUTF8?_eq_some_iff.mpr rfl]

end Dump

end ContentDecl
