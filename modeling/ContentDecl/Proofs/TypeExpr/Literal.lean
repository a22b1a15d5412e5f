/-
# Literals read back

Between the quotes of a literal a backslash stands for the character behind it,
whatever this is, and no other quote or backslash occurs. `Escaped` is this
rule, `readLiteral` reads by it up to the closing quote, and what `literal`
writes is read back as the text it was made of.

A text that is put between quotes as it stands is read back exactly if nothing in it
would have been escaped, and only then it is what `literal` writes.

Key definitions: `Escaped`, `readLiteral`, `bareLiteral`, `IsUnescaped`, `ReadsAs`.
Key theorems: `escaped_flatMap_escape`, `Escaped.read`, `readsAs_bareLiteral_iff`,
`bareLiteral_eq_literal_iff`.
-/
import ContentDecl.TypeScript.Text
import Mathlib.Data.List.Basic

namespace ContentDecl
namespace TypeScript

/-- `Escaped cs s`: between quotes, the characters `cs` are the text `s`. -/
inductive Escaped : List Char → List Char → Prop
  | nil : Escaped [] []
  | plain {c cs s} (hq : c ≠ '\x27') (hb : c ≠ '\\') (h : Escaped cs s) :
    Escaped (c :: cs) (c :: s)
  | backslash {c cs s} (h : Escaped cs s) : Escaped ('\\' :: c :: cs) (c :: s)

/-- The text up to the closing quote, and what follows the quote. -/
def readLiteral : List Char → Option (List Char × List Char)
  | [] => none
  | '\x27' :: rest => some ([], rest)
  | '\\' :: c :: rest => (readLiteral rest).map fun found => (c :: found.1, found.2)
  | c :: rest => (readLiteral rest).map fun found => (c :: found.1, found.2)

theorem escape_append_of_escaped {cs s : List Char} (c : Char) (h : Escaped cs s) :
    Escaped (escape c ++ cs) (c :: s) := by
  unfold escape
  by_cases hb : c = '\\'
  · subst hb
    exact .backslash h
  · by_cases hq : c = '\x27'
    · subst hq
      exact .backslash h
    · have hno : (c == '\\' || c == '\x27') = false := by simp [hb, hq]
      rw [hno]
      exact .plain hq hb h

/-- What stands between the quotes of a literal is its text. -/
theorem escaped_flatMap_escape : ∀ s : List Char, Escaped (s.flatMap escape) s
  | [] => .nil
  | c :: s => escape_append_of_escaped c (escaped_flatMap_escape s)

/-- **A literal is read to its own closing quote**, whatever follows. -/
theorem Escaped.read {cs s : List Char} (h : Escaped cs s) (rest : List Char) :
    readLiteral (cs ++ '\x27' :: rest) = some (s, rest) := by
  induction h with
  | nil => rfl
  | plain hq hb _ ih => simp [readLiteral, hb, ih]
  | backslash _ ih => simp [readLiteral, ih]

/-! ### Texts between bare quotes -/

/-- A text between quotes as it stands. -/
def bareLiteral (s : String) : String := "'" ++ s ++ "'"

/-- A text without a character that a literal escapes. -/
def IsUnescaped (s : String) : Prop := ∀ c ∈ s.toList, c ≠ '\\' ∧ c ≠ '\x27'

instance (s : String) : Decidable (IsUnescaped s) :=
  List.decidableBAll (fun c => c ≠ '\\' ∧ c ≠ '\x27') s.toList

/-- The text is a literal from the first to the last character, and is read as `s`. -/
def ReadsAs (text s : String) : Prop :=
  ∃ cs, text.toList = '\x27' :: cs ∧ readLiteral cs = some (s.toList, [])

/-- What is read and what is left are shorter than the literal was. -/
theorem length_readLiteral {cs s rest : List Char} (h : readLiteral cs = some (s, rest)) :
    s.length + rest.length < cs.length := by
  induction cs using readLiteral.induct generalizing s with
  | case1 => cases h
  | case2 rest' =>
    obtain ⟨rfl, rfl⟩ : [] = s ∧ rest' = rest := by simpa [readLiteral] using h
    simp
  | case3 c tail ih =>
    obtain ⟨s', hs', rfl⟩ : ∃ s', readLiteral tail = some (s', rest) ∧ c :: s' = s := by
      simpa [readLiteral] using h
    have hlt := ih hs'
    simp only [List.length_cons]
    omega
  | case4 c tail hquote hbackslash ih =>
    obtain ⟨s', hs', rfl⟩ : ∃ s', readLiteral tail = some (s', rest) ∧ c :: s' = s := by
      simpa [readLiteral] using h
    have hlt := ih hs'
    simp only [List.length_cons]
    omega

/-- A literal is read as its text. -/
theorem readsAs_literal (s : String) : ReadsAs (literal s) s := by
  have hread := (escaped_flatMap_escape s.toList).read []
  refine ⟨s.toList.flatMap escape ++ ['\x27'], ?_, hread⟩
  rw [literal, String.toList_ofList]

/-- Between bare quotes a text is read as itself only if nothing in it is escaped: a
quote ends the literal before its end, and a backslash takes a character away. -/
theorem readLiteral_bare : ∀ s : List Char,
    readLiteral (s ++ ['\x27']) = some (s, []) ↔ ∀ c ∈ s, c ≠ '\\' ∧ c ≠ '\x27'
  | [] => by simp [readLiteral]
  | c :: s => by
    rw [List.forall_mem_cons, ← readLiteral_bare s]
    by_cases hquote : c = '\x27'
    · subst hquote
      simp [readLiteral]
    by_cases hbackslash : c = '\\'
    · subst hbackslash
      have hno : readLiteral ('\\' :: (s ++ ['\x27'])) ≠ some ('\\' :: s, []) := by
        intro hread
        cases s with
        | nil => simp [readLiteral] at hread
        | cons d s =>
          obtain ⟨hrest, -⟩ : readLiteral (s ++ ['\x27']) = some (d :: s, []) ∧ d = '\\' := by
            simpa [readLiteral] using hread
          have hlt := length_readLiteral hrest
          simp at hlt
      simpa using hno
    · simp [readLiteral, hquote, hbackslash]

theorem readsAs_bareLiteral_iff (s : String) : ReadsAs (bareLiteral s) s ↔ IsUnescaped s := by
  have hchars : (bareLiteral s).toList = '\x27' :: (s.toList ++ ['\x27']) := by
    simp [bareLiteral, String.toList_append]
  unfold ReadsAs
  rw [hchars]
  constructor
  · rintro ⟨cs, hcs, hread⟩
    obtain rfl := (List.cons.inj hcs).2
    exact (readLiteral_bare s.toList).mp hread
  · intro h
    exact ⟨_, rfl, (readLiteral_bare s.toList).mpr h⟩

/-- **A text between bare quotes is its literal exactly if nothing in it is escaped.** -/
theorem bareLiteral_eq_literal_iff (s : String) : bareLiteral s = literal s ↔ IsUnescaped s := by
  constructor
  · intro heq
    have hread := readsAs_literal s
    rw [← heq] at hread
    exact (readsAs_bareLiteral_iff s).mp hread
  · intro h
    have hescape : ∀ c ∈ s.toList, escape c = [c] := by
      intro c hmem
      obtain ⟨hbackslash, hquote⟩ := h c hmem
      simp [escape, hbackslash, hquote]
    have hflat : s.toList.flatMap escape = s.toList := by
      rw [List.flatMap_congr hescape]
      exact List.flatMap_singleton' _
    apply String.toList_inj.mp
    rw [literal, String.toList_ofList, hflat]
    simp [bareLiteral]

end TypeScript
end ContentDecl
