/-
# A reader of type expressions

The reader goes through a text once, from left to right, and decides by the next
characters which rule of the grammar it is in. It has a budget of nested rules,
which the length of the text always covers. Whatever the grammar derives, the
reader finds: so no text spells two types.

Key definitions: `readPrimary`, `readAlternatives`, `readLines`, `TypeExpr.read`.
Key theorems: `Alternatives.read`, `TypeExpr.Spells.read`, `TypeExpr.Spells.unique`.
-/
import ContentDecl.Proofs.TypeExpr.Grammar

namespace ContentDecl
namespace TypeScript

open TypeExpr (oneOf)

/-- The name at the front. -/
def readName (cs : List Char) : Option (String × List Char) :=
  if (cs.takeWhile isNameChar).isEmpty then none
  else some (String.ofList (cs.takeWhile isNameChar), cs.dropWhile isNameChar)

/-- The lists that the brackets behind a type make of it. -/
def readLists : TypeExpr → List Char → TypeExpr × List Char
  | t, '[' :: ']' :: cs => readLists (.list t) cs
  | t, cs => (t, cs)

/-- The text up to the end of a comment, and what follows the comment. -/
def readComment : List Char → Option (List Char × List Char)
  | [] => none
  | '*' :: '/' :: cs => some ([], cs)
  | c :: cs => (readComment cs).map fun found => (c :: found.1, found.2)

def skipBlanks (cs : List Char) : List Char := cs.dropWhile (· == ' ')

/-- The comment before a member, if there is one, with its line end. -/
def readComment? : List Char → Option (Option String × List Char)
  | '/' :: '*' :: '*' :: cs => match readComment cs with
    | some (d, '\n' :: rest) => some (some (String.ofList d), rest)
    | _ => none
  | cs => some (none, cs)

mutual

/-- An expression without operators, and what follows it. -/
def readPrimary : Nat → List Char → Option (TypeExpr × List Char)
  | 0, _ => none
  | budget + 1, cs => match cs with
    | '\x27' :: cs => (readLiteral cs).map fun found => (.literal (String.ofList found.1), found.2)
    | '(' :: cs => match readAlternatives budget cs with
      | some (ts, ')' :: rest) => some (oneOf ts, rest)
      | _ => none
    | '\x7b' :: '\n' :: '\n' :: '\x7d' :: cs => some (.object [], cs)
    | '\x7b' :: '\n' :: cs => match readLines budget cs with
      | some (ms, '\n' :: '\x7d' :: rest) => some (.object ms, rest)
      | _ => none
    | cs => (readName cs).map fun found => (.name found.1, found.2)

/-- The members of a union, and what follows them. -/
def readAlternatives : Nat → List Char → Option (List TypeExpr × List Char)
  | 0, _ => none
  | budget + 1, cs =>
    match (readPrimary budget cs).map fun found => readLists found.1 found.2 with
    | some (t, ' ' :: '|' :: ' ' :: rest) =>
      (readAlternatives budget rest).map fun found => (t :: found.1, found.2)
    | some (t, rest) => some ([t], rest)
    | none => none

/-- A member of an object type, and what follows it. -/
def readLine : Nat → List Char → Option (Member TypeExpr × List Char)
  | 0, _ => none
  | budget + 1, cs => do
    let (comment?, rest) ← readComment? (skipBlanks cs)
    match readName (skipBlanks rest) with
    | some (name, ':' :: ' ' :: rest) =>
      (readAlternatives budget rest).map fun found => (⟨comment?, name, oneOf found.1⟩, found.2)
    | _ => none

/-- The members of an object type up to its closing brace, and what follows
them. -/
def readLines : Nat → List Char → Option (List (Member TypeExpr) × List Char)
  | 0, _ => none
  | budget + 1, cs =>
    match readLine budget cs with
    | some (m, '\n' :: '\x7d' :: rest) => some ([m], '\n' :: '\x7d' :: rest)
    | some (m, '\n' :: rest) =>
      (readLines budget rest).map fun found => (m :: found.1, found.2)
    | _ => none

end

/-- The type that a text spells, if it spells one. -/
def TypeExpr.read (text : String) : Option TypeExpr :=
  match readAlternatives (text.toList.length + 1) text.toList with
  | some (ts, []) => some (oneOf ts)
  | _ => none

/-! ### Tokens -/

/-- What follows does not continue a name. -/
def EndsName (rest : List Char) : Prop := ∀ c ∈ rest.head?, isNameChar c = false

/-- What follows does not continue a union. -/
def EndsUnion (rest : List Char) : Prop := ∀ c ∈ rest.head?, c = ')' ∨ c = '\n'

theorem EndsUnion.endsName {rest : List Char} (h : EndsUnion rest) : EndsName rest := by
  intro c hc
  rcases h c hc with rfl | rfl <;> decide

theorem endsName_cons {c : Char} (rest : List Char) (hc : isNameChar c = false) :
    EndsName (c :: rest) := by
  intro d hd
  obtain rfl : c = d := by simpa using hd
  exact hc

theorem endsUnion_cons {c : Char} (rest : List Char) (hc : c = ')' ∨ c = '\n') :
    EndsUnion (c :: rest) := by
  intro d hd
  obtain rfl : c = d := by simpa using hd
  exact hc

theorem readName_append {s : String} {rest : List Char} (hs : IsName s) (hr : EndsName rest) :
    readName (s.toList ++ rest) = some (s, rest) := by
  have htake : rest.takeWhile isNameChar = [] := by
    cases rest with
    | nil => rfl
    | cons c cs => simp [hr c (by simp)]
  have hdrop : rest.dropWhile isNameChar = rest := by
    cases rest with
    | nil => rfl
    | cons c cs => simp [hr c (by simp)]
  unfold readName
  rw [List.takeWhile_append_of_pos hs.2, List.dropWhile_append_of_pos hs.2, htake, hdrop]
  simp [hs.1]

theorem readLists_of_endsUnion {rest : List Char} (t : TypeExpr) (hr : EndsUnion rest) :
    readLists t rest = (t, rest) := by
  cases rest with
  | nil => rfl
  | cons c cs =>
    have hc : c ≠ '[' := by rcases hr c (by simp) with rfl | rfl <;> decide
    unfold readLists
    simp [hc]

theorem readComment_append {d : List Char} (rest : List Char) (hd : ¬ ['*', '/'] <:+: d) :
    readComment (d ++ '*' :: '/' :: rest) = some (d, rest) := by
  induction d with
  | nil => rfl
  | cons c d ih =>
    have ih := ih fun h => hd (List.infix_cons h)
    have hno : ¬ (c = '*' ∧ (d ++ '*' :: '/' :: rest).head? = some '/') := by
      rintro ⟨rfl, hhead⟩
      cases d with
      | nil => simp at hhead
      | cons e d =>
        obtain rfl : e = '/' := by simpa using hhead
        exact hd ⟨[], d, rfl⟩
    rw [List.cons_append]
    unfold readComment
    split
    · rename_i heq
      simp at heq
    · rename_i heq
      simp only [List.cons.injEq] at heq
      exact absurd ⟨heq.1, by rw [heq.2]; rfl⟩ hno
    · rename_i heq
      simp only [List.cons.injEq] at heq
      obtain ⟨rfl, rfl⟩ := heq
      rw [ih]
      rfl

theorem skipBlanks_append (n : Nat) {cs : List Char} (h : cs.head? ≠ some ' ') :
    skipBlanks (blanks n ++ cs) = cs := by
  have hcs : cs.dropWhile (· == ' ') = cs := by
    cases cs with
    | nil => rfl
    | cons c cs =>
      have hc : c ≠ ' ' := by simpa using h
      simp [hc]
  unfold skipBlanks blanks
  rw [List.dropWhile_append_of_pos (by simp), hcs]

theorem IsName.exists_cons {s : String} (hs : IsName s) :
    ∃ c cs, s.toList = c :: cs ∧ isNameChar c = true := by
  obtain ⟨c, cs, h⟩ := List.exists_cons_of_ne_nil hs.1
  exact ⟨c, cs, h, hs.2 c (by simp [h])⟩

theorem ne_of_isNameChar {c d : Char} (hc : isNameChar c = true) (hd : d ∈ delimiters) :
    c ≠ d := by
  rintro rfl
  simp [isNameChar, hd] at hc

/-- A line starts neither like the end of an object type nor with a line end. -/
theorem Line.exists_cons {cs : List Char} {m : Member TypeExpr} (h : Line cs m) :
    ∃ c rest, cs = c :: rest ∧ c ≠ '\n' ∧ c ≠ '\x7d' := by
  cases h with
  | plain n hs _ =>
    cases n with
    | zero =>
      obtain ⟨c, cs, hc, hn⟩ := hs.exists_cons
      rw [hc]
      exact ⟨c, _, rfl, ne_of_isNameChar hn (by decide), ne_of_isNameChar hn (by decide)⟩
    | succ n => exact ⟨' ', _, rfl, by decide, by decide⟩
  | commented n _ _ _ _ =>
    cases n with
    | zero => exact ⟨'/', _, rfl, by decide, by decide⟩
    | succ n => exact ⟨' ', _, rfl, by decide, by decide⟩

theorem Lines.exists_cons {cs : List Char} {ms : List (Member TypeExpr)} (h : Lines cs ms) :
    ∃ c rest, cs = c :: rest ∧ c ≠ '\n' ∧ c ≠ '\x7d' := by
  cases h with
  | one h => exact h.exists_cons
  | more h _ =>
    obtain ⟨c, rest, rfl, hc⟩ := h.exists_cons
    exact ⟨c, _, rfl, hc⟩

theorem Primary.ne_nil {cs : List Char} {t : TypeExpr} (h : Primary cs t) : cs ≠ [] := by
  cases h with
  | name hs => exact hs.1
  | literal _ => simp
  | parenthesized _ => simp
  | emptyObject => simp
  | object _ => simp

theorem readPrimary_name {s : String} {rest : List Char} (budget : Nat) (hs : IsName s)
    (hr : EndsName rest) : readPrimary (budget + 1) (s.toList ++ rest) = some (.name s, rest) := by
  have hread := readName_append hs hr
  obtain ⟨c, cs, hc, hn⟩ := hs.exists_cons
  rw [hc, List.cons_append] at hread ⊢
  have h1 := ne_of_isNameChar hn (d := '\x27') (by decide)
  have h2 := ne_of_isNameChar hn (d := '(') (by decide)
  have h3 := ne_of_isNameChar hn (d := '\x7b') (by decide)
  simp [readPrimary, hread, h1, h2, h3]

theorem head?_name_append {s : String} (cs : List Char) (hs : IsName s) :
    ∃ c, (s.toList ++ cs).head? = some c ∧ isNameChar c = true := by
  obtain ⟨c, ds, hc, hn⟩ := hs.exists_cons
  exact ⟨c, by rw [hc]; rfl, hn⟩

/-- The name of a member, behind its blanks and before its colon. -/
theorem readName_line {s : String} (n : Nat) (rest : List Char) (hs : IsName s) :
    readName (skipBlanks (blanks n ++ (s.toList ++ ':' :: rest))) = some (s, ':' :: rest) := by
  obtain ⟨c, hc, hn⟩ := head?_name_append (':' :: rest) hs
  have hne : c ≠ ' ' := ne_of_isNameChar hn (by decide)
  rw [skipBlanks_append n (by simpa [hc] using hne)]
  exact readName_append hs (endsName_cons _ (by decide))

/-- No comment is read where a name stands. -/
theorem readComment?_name {s : String} (rest : List Char) (hs : IsName s) :
    readComment? (s.toList ++ rest) = some (none, s.toList ++ rest) := by
  obtain ⟨c, cs, hc, hn⟩ := hs.exists_cons
  have hne : c ≠ '/' := ne_of_isNameChar hn (by decide)
  rw [hc, List.cons_append]
  simp [readComment?, hne]

theorem readComment?_comment {d : String} (rest : List Char) (hd : IsComment d) :
    readComment? ('/' :: '*' :: '*' :: (d.toList ++ '*' :: '/' :: '\n' :: rest))
      = some (some d, rest) := by
  simp [readComment?, readComment_append _ hd]

/-! ### The reader finds what the grammar derives -/

mutual

theorem Primary.read {cs : List Char} {t : TypeExpr} (h : Primary cs t) (budget : Nat)
    (rest : List Char) (hb : cs.length ≤ budget) (hr : EndsName rest) :
    readPrimary budget (cs ++ rest) = some (t, rest) := by
  match budget, h with
  | 0, h => exact absurd (List.length_eq_zero_iff.mp (Nat.le_zero.mp hb)) h.ne_nil
  | budget + 1, .name hs => exact readPrimary_name budget hs hr
  | budget + 1, .literal h =>
    simp [readPrimary, h.read]
  | budget + 1, .parenthesized h =>
    have ih := h.read budget (')' :: rest) (by simp at hb; omega) (endsUnion_cons _ (.inl rfl))
    simp [readPrimary, ih]
  | budget + 1, .emptyObject => rfl
  | budget + 1, .object h =>
    have ih := h.read budget rest (by simp at hb; omega)
    obtain ⟨c, cs, hcs, hne, -⟩ := h.exists_cons
    rw [hcs] at ih ⊢
    simp only [List.cons_append] at ih
    simp [readPrimary, hne, ih]

theorem Postfix.read {cs : List Char} {t : TypeExpr} (h : Postfix cs t) (budget : Nat)
    (rest : List Char) (hb : cs.length ≤ budget) (hr : EndsName rest) :
    (readPrimary budget (cs ++ rest)).map (fun found => readLists found.1 found.2)
      = some (readLists t rest) := by
  match h with
  | .primary h =>
    rw [h.read budget rest hb hr]
    rfl
  | .list h =>
    have ih := h.read budget ('[' :: ']' :: rest) (by simp at hb; omega)
      (endsName_cons _ (by decide))
    rw [List.append_assoc]
    exact ih

theorem Alternatives.read {cs : List Char} {ts : List TypeExpr} (h : Alternatives cs ts)
    (budget : Nat) (rest : List Char) (hb : cs.length < budget) (hr : EndsUnion rest) :
    readAlternatives budget (cs ++ rest) = some (ts, rest) := by
  match budget, h with
  | 0, _ => omega
  | budget + 1, .one h =>
    have ih := h.read budget rest (by omega) hr.endsName
    rw [readLists_of_endsUnion _ hr] at ih
    rw [readAlternatives, ih]
    cases rest with
    | nil => rfl
    | cons c cs =>
      have hc : c ≠ ' ' := by rcases hr c (by simp) with rfl | rfl <;> decide
      simp [hc]
  | budget + 1, @Alternatives.more cs ds _ _ h hs =>
    have ih := h.read budget (' ' :: '|' :: ' ' :: (ds ++ rest)) (by simp at hb; omega)
      (endsName_cons _ (by decide))
    have ihs := hs.read budget rest (by simp at hb; omega) hr
    rw [readAlternatives, List.append_assoc, List.cons_append, List.cons_append, List.cons_append,
      ih]
    simp [readLists, ihs]

theorem Line.read {cs : List Char} {m : Member TypeExpr} (h : Line cs m) (budget : Nat)
    (rest : List Char) (hb : cs.length ≤ budget) (hr : EndsUnion rest) :
    readLine budget (cs ++ rest) = some (m, rest) := by
  match budget, h with
  | 0, h =>
    obtain ⟨c, cs', rfl, -⟩ := h.exists_cons
    simp at hb
  | budget + 1, @Line.plain s cs _ n hs h =>
    have ih := h.read budget rest (by simp at hb; omega) hr
    obtain ⟨c, hc, hn⟩ := head?_name_append (':' :: ' ' :: (cs ++ rest)) hs
    have hne : c ≠ ' ' := ne_of_isNameChar hn (by decide)
    have hname := readName_line 0 (' ' :: (cs ++ rest)) hs
    rw [readLine]
    simp only [List.append_assoc, List.cons_append]
    rw [skipBlanks_append n (by simpa [hc] using hne), readComment?_name _ hs]
    simp only [blanks, List.replicate_zero, List.nil_append] at hname
    simp [hname, ih]
  | budget + 1, @Line.commented _ _ cs _ n k hd hs h =>
    have ih := h.read budget rest (by simp at hb; omega) hr
    have hname := readName_line k (' ' :: (cs ++ rest)) hs
    rw [readLine]
    simp only [List.append_assoc, List.cons_append]
    rw [skipBlanks_append n (by simp), readComment?_comment _ hd]
    simp [hname, ih]

theorem Lines.read {cs : List Char} {ms : List (Member TypeExpr)} (h : Lines cs ms) (budget : Nat)
    (rest : List Char) (hb : cs.length < budget) :
    readLines budget (cs ++ '\n' :: '\x7d' :: rest) = some (ms, '\n' :: '\x7d' :: rest) := by
  match budget, h with
  | 0, _ => omega
  | budget + 1, .one h =>
    have ih := h.read budget ('\n' :: '\x7d' :: rest) (by omega) (endsUnion_cons _ (.inr rfl))
    simp [readLines, ih]
  | budget + 1, @Lines.more _ ds _ _ h hs =>
    have ih := h.read budget ('\n' :: (ds ++ '\n' :: '\x7d' :: rest)) (by simp at hb; omega)
      (endsUnion_cons _ (.inr rfl))
    have ihs := hs.read budget rest (by simp at hb; omega)
    obtain ⟨c, cs, rfl, -, hne⟩ := hs.exists_cons
    rw [readLines, List.append_assoc, List.cons_append, ih]
    simp only [List.cons_append] at ihs
    simp [hne, ihs]

end

/-- **The reader reads every spelling**: what spells a type is read as this
type, to the end. -/
theorem TypeExpr.Spells.read {text : String} {t : TypeExpr} (h : TypeExpr.Spells text t) :
    TypeExpr.read text = some t := by
  obtain ⟨ts, hts, rfl⟩ := h
  have hread := hts.read (text.toList.length + 1) [] (by omega) (by simp [EndsUnion])
  rw [List.append_nil] at hread
  rw [TypeExpr.read, hread]

/-- **No text spells two types.** -/
theorem TypeExpr.Spells.unique {text : String} {t u : TypeExpr} (ht : TypeExpr.Spells text t)
    (hu : TypeExpr.Spells text u) : t = u :=
  Option.some.inj (ht.read.symm.trans hu.read)

example : TypeExpr.read "(string | ('x' | 'y'))[]"
    = some (.list (.union [.name "string", .union [.literal "x", .literal "y"]])) := by cbv

end TypeScript
end ContentDecl
