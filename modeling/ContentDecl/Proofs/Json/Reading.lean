/-
# Every spelling of a value is read as the value

The reader takes from a text what spells a value, whatever the spelling is, and leaves what
stands behind it. What follows a value in a text can not go on with it: it is the end of
the text, a blank, a comma or a bracket. This matters for numbers only, which go on as long
as they can.

A text is read unit by unit. Each character that is spelled gives units that join to the
character, whatever follows (`SpellsChar.units`): no character is half of a surrogate
pair, so that no join crosses the border between two of them.

The values are read along the grammar. An array or an object takes two steps for a bracket
and at most two for each element with its comma, so twice the length of what is spelled is
enough.

Key definitions: `Delimited`.
Key theorems: `SpellsChar.units`, `SpellsText.string`, `number_natural`, `Spells.value`,
`Padded.decode`.
-/
import ContentDecl.Proofs.Json.Spelling
import ContentDecl.Proofs.Result
import Mathlib.Data.List.TakeDrop

namespace ContentDecl
namespace Json

open Result

/-! ### Blanks -/

theorem skipBlank_append {blanks : List Char} (h : Blanks blanks) (rest : List Char) :
    skipBlank (blanks ++ rest) = skipBlank rest := List.dropWhile_append_of_pos h

theorem skipBlank_cons {c : Char} (h : isBlank c = false) (rest : List Char) :
    skipBlank (c :: rest) = c :: rest := List.dropWhile_cons_of_neg (by simp [h])

/-- What can follow a value in a text. -/
def Delimited (rest : List Char) : Prop :=
  ∀ c ∈ rest.head?, isBlank c = true ∨ c = ',' ∨ c = ']' ∨ c = '\x7d'

theorem Delimited.nil : Delimited [] := nofun

theorem Delimited.cons {c : Char} (h : c = ',' ∨ c = ']' ∨ c = '\x7d') (rest : List Char) :
    Delimited (c :: rest) := by
  rintro _ ⟨⟩
  exact .inr h

theorem Delimited.append {blanks rest : List Char} (h : Blanks blanks) (hrest : Delimited rest) :
    Delimited (blanks ++ rest) := by
  cases blanks with
  | nil => exact hrest
  | cons c cs =>
    rintro _ ⟨⟩
    exact .inl (h c List.mem_cons_self)

/-! ### Texts -/

theorem hexDigit?_of_hexDigit {c : Char} {d : Nat} (h : HexDigit c d) : hexDigit? c = some d := by
  have hlower : ∀ d < 16, hexDigit? (Nat.digitChar d) = some d := by decide
  have hupper : ∀ d < 16, hexDigit? (Nat.digitChar d).toUpper = some d := by decide
  cases h with
  | lower h => exact hlower d h
  | upper h => exact hupper d h

/-- An escape by number gives its unit, unless the text ends with it. -/
theorem SpellsUnit.units {ds : List Char} {n : Nat} (h : SpellsUnit ds n) (opening : List Char)
    {rest : List Char} (hrest : rest ≠ []) :
    units opening ('\\' :: 'u' :: (ds ++ rest))
      = (fun found => (n :: found.1, found.2)) <$> Json.units opening rest := by
  obtain ⟨next, others, rfl⟩ := List.exists_cons_of_ne_nil hrest
  cases h with
  | @mk a b c d w x y z ha hb hc hd =>
    have hunit : hexUnit? a b c d = some (((w * 16 + x) * 16 + y) * 16 + z) := by
      simp [hexUnit?, hexDigit?_of_hexDigit ha, hexDigit?_of_hexDigit hb, hexDigit?_of_hexDigit hc,
        hexDigit?_of_hexDigit hd]
    simp only [List.cons_append, List.nil_append, Json.units, hunit]
    cases Json.units opening (next :: others) <;> rfl

theorem units_letter {letter c : Char} (h : (letter, c) ∈ letterEscapes)
    (opening rest : List Char) :
    units opening ('\\' :: letter :: rest)
      = (fun found => (c.toNat :: found.1, found.2)) <$> units opening rest := by
  have hescaped : ∀ entry ∈ letterEscapes, escaped? entry.1 = some entry.2 ∧ entry.1 ≠ 'u' := by
    decide
  obtain ⟨hletter, hu⟩ := hescaped _ h
  rw [units]
  · simp only [hletter]
    cases units opening rest <;> rfl
  · exact fun _ _ _ _ _ _ heq _ => hu heq
  · exact hu

theorem units_literal {c : Char} (hquote : c ≠ '\x22') (hbackslash : c ≠ '\\')
    (hcontrol : 0x1F < c.toNat) (opening rest : List Char) :
    units opening (c :: rest)
      = (fun found => (c.toNat :: found.1, found.2)) <$> units opening rest := by
  rw [units]
  · rw [if_neg (Nat.not_le.mpr hcontrol)]
    cases units opening rest <;> rfl
  -- The other ways to go on start with a quote or a backslash.
  all_goals simp [hquote, hbackslash]

theorem isValidChar_toNat (c : Char) : c.toNat.isValidChar := c.valid

/-- A character is no half of a surrogate pair. -/
theorem not_surrogate (c : Char) :
    isHighSurrogate c.toNat = false ∧ isLowSurrogate c.toNat = false := by
  have hvalid := isValidChar_toNat c
  simp only [Nat.isValidChar] at hvalid
  simp only [isHighSurrogate, isLowSurrogate, Bool.and_eq_false_iff, decide_eq_false_iff_not]
  omega

/-- A unit for a character stands alone, whatever follows. -/
theorem joinUnits_char (c : Char) (more : List Nat) :
    joinUnits (c.toNat :: more) = (joinUnits more).map (c :: ·) := by
  obtain ⟨hhigh, hlow⟩ := not_surrogate c
  have hchar : unitChar? c.toNat = some c := by
    simp [unitChar?, hhigh, hlow, Char.ofNat_toNat]
  cases more with
  | nil => simp [joinUnits, hchar]
  | cons unit more =>
    simp only [joinUnits, hhigh, hchar, Bool.false_and]
    cases joinUnits (unit :: more) <;> rfl

/-- The two units of a surrogate pair join to the character. -/
theorem joinUnits_pair {c : Char} (h : 0xFFFF < c.toNat) (more : List Nat) :
    joinUnits (highUnit c :: lowUnit c :: more) = (joinUnits more).map (c :: ·) := by
  have hvalid := isValidChar_toNat c
  simp only [Nat.isValidChar] at hvalid
  have hhigh : 0xD800 ≤ highUnit c ∧ highUnit c ≤ 0xDBFF := by
    unfold highUnit
    omega
  have hlow : 0xDC00 ≤ lowUnit c ∧ lowUnit c ≤ 0xDFFF := by
    unfold lowUnit
    omega
  have hjoined : 0x10000 + (highUnit c - 0xD800) * 0x400 + (lowUnit c - 0xDC00) = c.toNat := by
    unfold highUnit lowUnit
    omega
  simp [joinUnits, isHighSurrogate, isLowSurrogate, hhigh, hlow, hjoined, Char.ofNat_toNat]

/-- **What spells a character gives units that join to it**, whatever follows. -/
theorem SpellsChar.units {cs : List Char} {c : Char} (h : SpellsChar cs c) :
    ∃ us : List Nat, (∀ more, joinUnits (us ++ more) = (joinUnits more).map (c :: ·)) ∧
      ∀ opening rest, rest ≠ [] → Json.units opening (cs ++ rest)
        = (fun found => (us ++ found.1, found.2)) <$> Json.units opening rest := by
  cases h with
  | literal hquote hbackslash hcontrol =>
    exact ⟨[c.toNat], joinUnits_char c, fun opening rest _ =>
      units_literal hquote hbackslash hcontrol opening rest⟩
  | letter h =>
    exact ⟨[c.toNat], joinUnits_char c, fun opening rest _ => units_letter h opening rest⟩
  | unit h => exact ⟨[c.toNat], joinUnits_char c, fun opening rest hrest => h.units opening hrest⟩
  | @pair ds es _ hc hhigh hlow =>
    refine ⟨[highUnit c, lowUnit c], joinUnits_pair hc, fun opening rest hrest => ?_⟩
    have hfirst := hhigh.units opening (List.cons_ne_nil '\\' ('u' :: (es ++ rest)))
    rw [hlow.units opening hrest] at hfirst
    simp only [List.cons_append, List.append_assoc, hfirst]
    cases Json.units opening rest <;> rfl

/-- The units of a text join to its characters. -/
theorem SpellsText.units (opening rest : List Char) : ∀ {cs s : List Char}, SpellsText cs s →
    ∃ us, Json.units opening (cs ++ '\x22' :: rest) = .ok (us, rest) ∧ joinUnits us = some s
  | _, _, .nil => ⟨[], by rw [List.nil_append, Json.units]; rfl, by rw [joinUnits]⟩
  | _, _, @SpellsText.cons cs ds _ _ h hs => by
    obtain ⟨us, hjoin, hread⟩ := h.units
    obtain ⟨more, hmore, hsaid⟩ := hs.units opening rest
    have hrest : ds ++ '\x22' :: rest ≠ [] := by simp
    refine ⟨us ++ more, ?_, ?_⟩
    · rw [List.append_assoc, hread opening _ hrest, hmore, map_ok]
    · rw [hjoin more, hsaid, Option.map_some]

/-- **What spells a text is read as the text.** -/
theorem SpellsText.string {ds : List Char} {s : String} (h : SpellsText ds s.toList)
    (rest : List Char) : Json.string ('\x22' :: (ds ++ '\x22' :: rest)) = .ok (s, rest) := by
  obtain ⟨us, hunits, hjoin⟩ := h.units ('\x22' :: (ds ++ '\x22' :: rest)) rest
  rw [Json.string, List.drop_one, List.tail_cons, hunits, ok_bind]
  simp only [hjoin, String.ofList_toList]
  rfl

/-! ### Integers -/

theorem digits_append {ds rest : List Char} (h : ∀ d ∈ ds, d.isDigit = true)
    (hrest : ∀ c ∈ rest.head?, c.isDigit = false) : digits (ds ++ rest) = (ds, rest) := by
  rw [digits, List.span_eq_takeWhile_dropWhile, List.takeWhile_append_of_pos h,
    List.dropWhile_append_of_pos h]
  cases rest with
  | nil => simp
  | cons c rest => simp [hrest c rfl]

theorem isDigit_of_mem_toDigits {n : Nat} : ∀ d ∈ Nat.toDigits 10 n, d.isDigit = true :=
  fun _ => Nat.isDigit_of_mem_toDigits (by decide) (by decide)

theorem exists_toDigits_cons (n : Nat) :
    ∃ d ds, Nat.toDigits 10 n = d :: ds ∧ d.isDigit = true := by
  obtain ⟨d, ds, heq⟩ := List.exists_cons_of_ne_nil (Nat.toDigits_ne_nil (n := n) (b := 10))
  have hmem : d ∈ Nat.toDigits 10 n := by
    rw [heq]
    exact List.mem_cons_self
  exact ⟨d, ds, heq, isDigit_of_mem_toDigits d hmem⟩

theorem natOf_toDigits (n : Nat) : natOf (Nat.toDigits 10 n) = n :=
  Nat.ofDigitChars_toDigits (by decide) (by decide)

/-- Only zero starts with a zero. -/
theorem head_toDigits (n : Nat) : 0 < n → (Nat.toDigits 10 n).head? ≠ some '0' := by
  induction n using Nat.strongRecOn with
  | ind n ih =>
    intro hpos
    by_cases hsmall : n < 10
    · rw [Nat.toDigits_of_lt_base hsmall]
      have hdigit : ∀ d < 10, 0 < d → [Nat.digitChar d].head? ≠ some '0' := by decide
      exact hdigit n hsmall hpos
    · rw [Nat.toDigits_of_base_le (by decide) (Nat.le_of_not_lt hsmall),
        List.head?_append_of_ne_nil _ Nat.toDigits_ne_nil]
      exact ih (n / 10) (by omega) (by omega)

theorem wholePart_toDigits (n : Nat) {rest : List Char}
    (hrest : ∀ c ∈ rest.head?, c.isDigit = false) :
    wholePart (Nat.toDigits 10 n ++ rest) = (Nat.toDigits 10 n, rest) := by
  obtain rfl | hpos := Nat.eq_zero_or_pos n
  · rfl
  · have hdigits := digits_append (isDigit_of_mem_toDigits (n := n)) hrest
    have hhead := head_toDigits n hpos
    obtain ⟨d, ds, heq, -⟩ := exists_toDigits_cons n
    rw [heq] at hdigits hhead ⊢
    rw [List.cons_append, wholePart, ← List.cons_append, hdigits]
    rintro _ ⟨⟩
    exact hhead rfl

theorem Delimited.not_digit {rest : List Char} (h : Delimited rest) :
    ∀ c ∈ rest.head?, c.isDigit = false := by
  intro c hc
  rcases h c hc with hblank | rfl | rfl | rfl
  · simp only [isBlank, Bool.or_eq_true, beq_iff_eq] at hblank
    rcases hblank with ((rfl | rfl) | rfl) | rfl <;> rfl
  all_goals rfl

/-- What follows a value is no part of a number that is no integer. -/
theorem Delimited.integer {rest : List Char} (h : Delimited rest) :
    fractionPart rest = none ∧ exponentPart rest = none := by
  cases rest with
  | nil => exact ⟨rfl, rfl⟩
  | cons c rest =>
    rcases h c rfl with hblank | rfl | rfl | rfl
    · simp only [isBlank, Bool.or_eq_true, beq_iff_eq] at hblank
      rcases hblank with ((rfl | rfl) | rfl) | rfl <;> exact ⟨rfl, rfl⟩
    all_goals exact ⟨rfl, rfl⟩

section Numbers

variable {n : Nat} (hlimit : (Nat.toDigits 10 n).length ≤ digitLimit) {rest : List Char}
  (hrest : Delimited rest)
include hlimit hrest

theorem number_natural : number (Nat.toDigits 10 n ++ rest) = .ok (.int n, rest) := by
  obtain ⟨hfraction, hexponent⟩ := hrest.integer
  have hwhole := wholePart_toDigits n hrest.not_digit
  obtain ⟨d, ds, heq, hdigit⟩ := exists_toDigits_cons n
  rw [number]
  · simp only [hwhole, hfraction, hexponent, Option.elim_none, natOf_toDigits]
    rw [if_neg (by simp [Nat.toDigits_ne_nil]), if_neg (Nat.not_lt.mpr hlimit)]
    rfl
  · intro others hminus
    rw [heq] at hminus
    obtain ⟨rfl, -⟩ := List.cons.inj hminus
    cases hdigit

theorem number_negative : number ('-' :: (Nat.toDigits 10 n ++ rest)) = .ok (.int (-n), rest) := by
  obtain ⟨hfraction, hexponent⟩ := hrest.integer
  have hwhole := wholePart_toDigits n hrest.not_digit
  simp only [number, hwhole, hfraction, hexponent, Option.elim_none, natOf_toDigits]
  rw [if_neg (by simp [Nat.toDigits_ne_nil]), if_neg (Nat.not_lt.mpr hlimit)]
  rfl

end Numbers

/-! ### Values -/

theorem not_blank_of_isDigit {d : Char} (hd : d.isDigit = true) : isBlank d = false := by
  by_contra hblank
  simp only [isBlank, Bool.not_eq_false, Bool.or_eq_true, beq_iff_eq] at hblank
  rcases hblank with ((rfl | rfl) | rfl) | rfl <;> cases hd

/-- What spells a value starts with no blank and no closing bracket. -/
theorem Spells.exists_cons {cs : List Char} {v : Json} (h : Spells cs v) :
    ∃ c ds, cs = c :: ds ∧ isBlank c = false ∧ c ≠ ']' ∧ c ≠ '\uFEFF' := by
  cases h with
  | natural hlimit =>
    rename_i n
    obtain ⟨d, ds, heq, hd⟩ := exists_toDigits_cons n
    refine ⟨d, ds, heq, not_blank_of_isDigit hd, ?_, ?_⟩
    all_goals
      rintro rfl
      cases hd
  | _ => exact ⟨_, _, rfl, rfl, by decide, by decide⟩

section Steps

variable {steps : Nat} {cs left more rest : List Char}

theorem value_emptyArray (h : skipBlank cs = ']' :: rest) :
    value (steps + 1) ('[' :: cs) = .ok (.arr [], rest) := by
  simp only [value, h]
  rfl

theorem value_array {vs : List Json} (hopen : ∀ others, skipBlank cs ≠ ']' :: others)
    (h : elementsFrom steps (skipBlank cs) = .ok (vs, rest)) :
    value (steps + 1) ('[' :: cs) = .ok (.arr vs, rest) := by
  rw [value]
  split
  · rename_i others heq
    exact absurd heq (hopen others)
  · rw [h]
    rfl

theorem value_emptyObject (h : skipBlank cs = '\x7d' :: rest) :
    value (steps + 1) ('\x7b' :: cs) = .ok (.obj [], rest) := by
  simp only [value, h]
  rfl

theorem value_object {ms : List (String × Json)} (hopen : ∀ others, skipBlank cs ≠ '\x7d' :: others)
    (h : membersFrom steps [] (skipBlank cs) = .ok (ms, rest)) :
    value (steps + 1) ('\x7b' :: cs) = .ok (.obj ms, rest) := by
  rw [value]
  split
  · rename_i others heq
    exact absurd heq (hopen others)
  · rw [h]
    rfl

variable {v : Json}

theorem elementsFrom_last (hvalue : value steps cs = .ok (v, left))
    (hleft : skipBlank left = ']' :: rest) : elementsFrom (steps + 1) cs = .ok ([v], rest) := by
  rw [elementsFrom, hvalue, ok_bind]
  simp only [hleft]
  rfl

theorem elementsFrom_comma {vs : List Json} (hvalue : value steps cs = .ok (v, left))
    (hleft : skipBlank left = ',' :: more)
    (h : elementsFrom steps (skipBlank more) = .ok (vs, rest)) :
    elementsFrom (steps + 1) cs = .ok (v :: vs, rest) := by
  rw [elementsFrom, hvalue, ok_bind]
  simp only [hleft]
  rw [h]
  rfl

/-- What spells the name of a member is read as the name, up to the colon. -/
theorem SpellsName.read {ns : List Char} {name : String} (h : SpellsName ns name)
    (rest : List Char) : ∃ cs left, skipBlank (ns ++ ':' :: rest) = '\x22' :: cs ∧
      string ('\x22' :: cs) = .ok (name, left) ∧ skipBlank left = ':' :: rest := by
  cases h with
  | @mk before ds after _ hbefore h hafter =>
    refine ⟨ds ++ '\x22' :: (after ++ ':' :: rest), after ++ ':' :: rest, ?_, h.string _, ?_⟩
    · simp only [List.append_assoc, List.cons_append, skipBlank_append hbefore]
      rw [skipBlank_cons (by decide)]
    · rw [skipBlank_append hafter, skipBlank_cons (by decide)]

theorem putMember_new {found : List (String × Json)} {name : String}
    (h : name ∉ found.map Prod.fst) (v : Json) : putMember found name v = found ++ [(name, v)] := by
  have hnone : found.lookup name = none := by
    refine List.lookup_eq_none_iff.mpr fun entry hmem => ?_
    have hne : name ≠ entry.1 := fun heq => h (List.mem_map.mpr ⟨entry, hmem, heq.symm⟩)
    simpa using hne
  rw [putMember, hnone, if_neg (by simp)]

/-- The name of a member is not among those before it. -/
theorem not_mem_of_nodup_append {found ms : List (String × Json)} {name : String}
    (h : ((found ++ (name, v) :: ms).map Prod.fst).Nodup) : name ∉ found.map Prod.fst := by
  rw [List.map_append, List.nodup_append] at h
  exact fun hmem => h.2.2 name hmem name List.mem_cons_self rfl

section Members

variable {found : List (String × Json)} {ns : List Char} {name : String}
  (hname : SpellsName ns name) (hnew : name ∉ found.map Prod.fst)
include hname hnew

theorem membersFrom_last (hvalue : value steps (skipBlank cs) = .ok (v, left))
    (hleft : skipBlank left = '\x7d' :: rest) :
    membersFrom (steps + 1) found (skipBlank (ns ++ ':' :: cs))
      = .ok (found ++ [(name, v)], rest) := by
  obtain ⟨others, afterName, hquote, hstring, hcolon⟩ := hname.read cs
  rw [hquote, membersFrom, hstring, ok_bind]
  simp only [hcolon]
  rw [hvalue, ok_bind]
  simp only [hleft, putMember_new hnew]
  rfl

theorem membersFrom_comma {ms : List (String × Json)}
    (hvalue : value steps (skipBlank cs) = .ok (v, left)) (hleft : skipBlank left = ',' :: more)
    (h : membersFrom steps (found ++ [(name, v)]) (skipBlank more) = .ok (ms, rest)) :
    membersFrom (steps + 1) found (skipBlank (ns ++ ':' :: cs)) = .ok (ms, rest) := by
  obtain ⟨others, afterName, hquote, hstring, hcolon⟩ := hname.read cs
  rw [hquote, membersFrom, hstring, ok_bind]
  simp only [hcolon]
  rw [hvalue, ok_bind]
  simp only [hleft, putMember_new hnew]
  exact h

end Members

end Steps

/-! ### The whole grammar -/

theorem Padded.skipBlank_head {cs : List Char} {v : Json} (h : Padded cs v) (rest : List Char) :
    ∃ c others, skipBlank (cs ++ rest) = c :: others ∧ c ≠ ']' := by
  cases h with
  | @mk before ds after _ hbefore h hafter =>
    obtain ⟨c, others, rfl, hblank, hbracket, -⟩ := h.exists_cons
    refine ⟨c, others ++ (after ++ rest), ?_, hbracket⟩
    simp only [List.append_assoc, List.cons_append, skipBlank_append hbefore]
    rw [skipBlank_cons hblank]

theorem SpellsElements.not_closed {cs : List Char} {vs : List Json} (h : SpellsElements cs vs)
    (rest others : List Char) : skipBlank (cs ++ rest) ≠ ']' :: others := by
  intro heq
  cases h with
  | last h =>
    obtain ⟨c, _, hhead, hne⟩ := h.skipBlank_head rest
    exact hne (List.cons.inj (hhead.symm.trans heq)).1
  | @cons _ ds _ _ h hs =>
    obtain ⟨c, _, hhead, hne⟩ := h.skipBlank_head (',' :: ds ++ rest)
    rw [List.append_assoc] at heq
    exact hne (List.cons.inj (hhead.symm.trans heq)).1

theorem SpellsMembers.not_closed {cs : List Char} {ms : List (String × Json)}
    (h : SpellsMembers cs ms) (rest others : List Char) :
    skipBlank (cs ++ rest) ≠ '\x7d' :: others := by
  intro heq
  cases h with
  | @last ns cs _ _ hname h =>
    obtain ⟨_, _, hhead, -, -⟩ := hname.read (cs ++ rest)
    rw [List.append_assoc, List.cons_append, hhead] at heq
    cases heq
  | @cons ns cs ds _ _ _ hname h hs =>
    obtain ⟨_, _, hhead, -, -⟩ := hname.read (cs ++ ',' :: ds ++ rest)
    rw [List.append_assoc, List.cons_append, hhead] at heq
    cases heq

mutual

/-- **What spells a value is read as the value.** -/
theorem Spells.value : ∀ {cs : List Char} {v : Json}, Spells cs v → ∀ (steps : Nat)
    {rest : List Char}, 2 * cs.length ≤ steps → Delimited rest →
    Json.value steps (cs ++ rest) = .ok (v, rest)
  | _, _, .null, steps + 1, _, _, _ => rfl
  | _, _, .trueValue, steps + 1, _, _, _ => rfl
  | _, _, .falseValue, steps + 1, _, _, _ => rfl
  | _, _, @Spells.natural n _, 0, _, hsteps, _ => by
    have hpos : 0 < (Nat.toDigits 10 n).length := Nat.length_toDigits_pos
    omega
  | _, _, @Spells.natural n hlimit, steps + 1, rest, _, hrest => by
    have hread := number_natural hlimit hrest
    obtain ⟨d, ds, heq, hd⟩ := exists_toDigits_cons n
    rw [heq, List.cons_append] at hread ⊢
    rw [value_digit hd, hread]
  | _, _, @Spells.negative n hlimit, steps + 1, rest, _, hrest => by
    have hread := number_negative hlimit hrest
    obtain ⟨d, ds, heq, hd⟩ := exists_toDigits_cons n
    rw [heq, List.cons_append] at hread
    rw [heq, List.cons_append, List.cons_append, value_minus hd, hread]
  | _, _, .text h, steps + 1, rest, _, _ => by
    have hstring := h.string rest
    rw [List.cons_append, List.append_assoc, List.singleton_append, Json.value, hstring]
    rfl
  | _, _, .emptyArray h, steps + 1, rest, _, _ => by
    rw [List.cons_append, List.append_assoc, List.singleton_append]
    refine value_emptyArray ?_
    rw [skipBlank_append h, skipBlank_cons (by decide)]
  | _, _, .array h, steps + 1, rest, hsteps, _ => by
    simp only [List.length_cons, List.length_append] at hsteps
    rw [List.cons_append, List.append_assoc, List.singleton_append]
    exact value_array (h.not_closed _) (h.elementsFrom steps rest (by omega))
  | _, _, .emptyObject h, steps + 1, rest, _, _ => by
    rw [List.cons_append, List.append_assoc, List.singleton_append]
    refine value_emptyObject ?_
    rw [skipBlank_append h, skipBlank_cons (by decide)]
  | _, _, .object hdistinct h, steps + 1, rest, hsteps, _ => by
    simp only [List.length_cons, List.length_append] at hsteps
    rw [List.cons_append, List.append_assoc, List.singleton_append]
    exact value_object (h.not_closed _) (h.membersFrom steps rest [] (by omega) hdistinct)

theorem Padded.value : ∀ {cs : List Char} {v : Json}, Padded cs v → ∀ (steps : Nat)
    {rest : List Char}, 2 * cs.length ≤ steps → Delimited rest →
    ∃ left, Json.value steps (skipBlank (cs ++ rest)) = .ok (v, left) ∧
      skipBlank left = skipBlank rest
  | _, _, @Padded.mk before cs after _ hbefore h hafter, steps, rest, hsteps, hrest => by
    simp only [List.length_append] at hsteps
    obtain ⟨c, ds, hcons, hblank, -, -⟩ := h.exists_cons
    have hstart : skipBlank (cs ++ (after ++ rest)) = cs ++ (after ++ rest) := by
      rw [hcons, List.cons_append, skipBlank_cons hblank]
    refine ⟨after ++ rest, ?_, skipBlank_append hafter rest⟩
    rw [List.append_assoc, List.append_assoc, skipBlank_append hbefore, hstart]
    exact h.value steps (by omega) (hrest.append hafter)

theorem SpellsElements.elementsFrom : ∀ {cs : List Char} {vs : List Json}, SpellsElements cs vs →
    ∀ (steps : Nat) (rest : List Char), 2 * cs.length + 1 ≤ steps →
    Json.elementsFrom steps (skipBlank (cs ++ ']' :: rest)) = .ok (vs, rest)
  | _, _, .last h, steps + 1, rest, hsteps => by
    obtain ⟨left, hvalue, hleft⟩ := h.value steps (by omega) (.cons (.inr (.inl rfl)) rest)
    exact elementsFrom_last hvalue (hleft.trans (skipBlank_cons (by decide) rest))
  | _, _, @SpellsElements.cons cs ds _ _ h hs, steps + 1, rest, hsteps => by
    simp only [List.length_cons, List.length_append] at hsteps
    obtain ⟨left, hvalue, hleft⟩ := h.value steps (by omega) (.cons (.inl rfl) (ds ++ ']' :: rest))
    rw [List.append_assoc, List.cons_append]
    exact elementsFrom_comma hvalue (hleft.trans (skipBlank_cons (by decide) _))
      (hs.elementsFrom steps rest (by omega))

theorem SpellsMembers.membersFrom : ∀ {cs : List Char} {ms : List (String × Json)},
    SpellsMembers cs ms → ∀ (steps : Nat) (rest : List Char) (found : List (String × Json)),
    2 * cs.length + 1 ≤ steps → ((found ++ ms).map Prod.fst).Nodup →
    Json.membersFrom steps found (skipBlank (cs ++ '\x7d' :: rest)) = .ok (found ++ ms, rest)
  | _, _, .last hname h, steps + 1, rest, found, hsteps, hdistinct => by
    simp only [List.length_cons, List.length_append] at hsteps
    obtain ⟨left, hvalue, hleft⟩ := h.value steps (by omega) (.cons (.inr (.inr rfl)) rest)
    rw [List.append_assoc, List.cons_append]
    exact membersFrom_last hname (not_mem_of_nodup_append hdistinct) hvalue
      (hleft.trans (skipBlank_cons (by decide) rest))
  | _, _, @SpellsMembers.cons ns cs ds name v ms hname h hs, steps + 1, rest, found, hsteps,
      hdistinct => by
    simp only [List.length_cons, List.length_append] at hsteps
    obtain ⟨left, hvalue, hleft⟩ := h.value steps (by omega)
      (.cons (.inl rfl) (ds ++ '\x7d' :: rest))
    have happend : found ++ (name, v) :: ms = (found ++ [(name, v)]) ++ ms := by
      rw [List.append_assoc, List.singleton_append]
    have hrest := hs.membersFrom steps rest (found ++ [(name, v)]) (by omega)
      (by rwa [happend] at hdistinct)
    have hcolon : (ns ++ ':' :: (cs ++ ',' :: ds)) ++ '\x7d' :: rest
        = ns ++ ':' :: (cs ++ ',' :: (ds ++ '\x7d' :: rest)) := by
      simp only [List.append_assoc, List.cons_append]
    rw [hcolon, happend]
    exact membersFrom_comma hname (not_mem_of_nodup_append hdistinct) hvalue
      (hleft.trans (skipBlank_cons (by decide) _)) hrest

end

/-- **A text that spells a value is read as the value.** -/
theorem Padded.decode {cs : List Char} {v : Json} (h : Padded cs v) : Json.decode cs = .ok v := by
  have hmark : cs.head? ≠ some '\uFEFF' := by
    cases h with
    | @mk before ds after _ hbefore h hafter =>
      cases before with
      | nil =>
        obtain ⟨c, others, rfl, -, -, hc⟩ := h.exists_cons
        exact fun heq => hc (Option.some.inj heq)
      | cons c before =>
        rintro ⟨⟩
        exact absurd (hbefore _ List.mem_cons_self) (by decide)
  obtain ⟨left, hvalue, hleft⟩ := h.value (2 * cs.length + 2) (by omega) .nil
  rw [List.append_nil] at hvalue
  have hdocument : document cs = .ok v := by
    rw [document, if_neg hmark, hvalue, ok_bind]
    simp only [hleft]
    rfl
  rw [Json.decode, hdocument]

end Json
end ContentDecl
