/-
# Spellings of a value

A value without floating-point numbers has many spellings: blanks may stand at the start
and the end of a text and around each token, and a character of a text may be written as
itself or as an escape, by a letter or by number, with the digits in either case. A
character beyond the first plane is escaped by number as a surrogate pair.

The spellings are stated here as a grammar, with the value that each form spells. Integers
have at most `digitLimit` digits, and the names of an object's members are distinct. These
are the values with a spelling (`plain_iff_exists_spelling`).

Key definitions: `SpellsChar`, `SpellsText`, `Spells`, `Padded`, `Json.Plain`.
Key theorems: `exists_spellsText`, `plain_iff_exists_spelling`.
-/
import ContentDecl.Json.Decode
import Mathlib.Data.List.Basic

namespace ContentDecl
namespace Json

/-- Only blanks: spaces, tabs, line feeds and carriage returns. -/
def Blanks (cs : List Char) : Prop := ∀ c ∈ cs, isBlank c = true

instance (cs : List Char) : Decidable (Blanks cs) :=
  decidable_of_iff (cs.all isBlank = true) List.all_eq_true

/-! ### Texts -/

/-- A hexadecimal digit, in either case. -/
inductive HexDigit : Char → Nat → Prop
  | lower {d : Nat} (h : d < 16) : HexDigit d.digitChar d
  | upper {d : Nat} (h : d < 16) : HexDigit d.digitChar.toUpper d

/-- Four hexadecimal digits that spell a unit of 16 bits. -/
inductive SpellsUnit : List Char → Nat → Prop
  | mk {a b c d : Char} {w x y z : Nat} (ha : HexDigit a w) (hb : HexDigit b x)
    (hc : HexDigit c y) (hd : HexDigit d z) :
    SpellsUnit [a, b, c, d] (((w * 16 + x) * 16 + y) * 16 + z)

/-- The escapes by a letter, each with its character. -/
def letterEscapes : List (Char × Char) :=
  [('\x22', '\x22'), ('\\', '\\'), ('/', '/'), ('b', '\x08'), ('f', '\x0c'), ('n', '\n'),
    ('r', '\r'), ('t', '\t')]

/-- The units of a surrogate pair. -/
def highUnit (c : Char) : Nat := 0xD800 + (c.toNat - 0x10000) / 0x400

def lowUnit (c : Char) : Nat := 0xDC00 + (c.toNat - 0x10000) % 0x400

/-- What spells a character of a text. -/
inductive SpellsChar : List Char → Char → Prop
  | literal {c : Char} (hquote : c ≠ '\x22') (hbackslash : c ≠ '\\') (hcontrol : 0x1F < c.toNat) :
    SpellsChar [c] c
  | letter {letter c : Char} (h : (letter, c) ∈ letterEscapes) : SpellsChar ['\\', letter] c
  | unit {ds : List Char} {c : Char} (h : SpellsUnit ds c.toNat) : SpellsChar ('\\' :: 'u' :: ds) c
  | pair {ds es : List Char} {c : Char} (hc : 0xFFFF < c.toNat) (hhigh : SpellsUnit ds (highUnit c))
    (hlow : SpellsUnit es (lowUnit c)) :
    SpellsChar ('\\' :: 'u' :: (ds ++ '\\' :: 'u' :: es)) c

/-- What spells the characters of a text, without the quotes around it. -/
inductive SpellsText : List Char → List Char → Prop
  | nil : SpellsText [] []
  | cons {cs ds : List Char} {c : Char} {s : List Char} (h : SpellsChar cs c)
    (hs : SpellsText ds s) : SpellsText (cs ++ ds) (c :: s)

/-- The name of a member, in quotes and between blanks. -/
inductive SpellsName : List Char → String → Prop
  | mk {before ds after : List Char} {name : String} (hbefore : Blanks before)
    (h : SpellsText ds name.toList) (hafter : Blanks after) :
    SpellsName (before ++ '\x22' :: (ds ++ '\x22' :: after)) name

/-! ### Values -/

mutual

/-- What spells a value, without blanks around it. -/
inductive Spells : List Char → Json → Prop
  | null : Spells ['n', 'u', 'l', 'l'] .null
  | trueValue : Spells ['t', 'r', 'u', 'e'] (.bool true)
  | falseValue : Spells ['f', 'a', 'l', 's', 'e'] (.bool false)
  | natural {n : Nat} (h : (Nat.toDigits 10 n).length ≤ digitLimit) :
    Spells (Nat.toDigits 10 n) (.int n)
  | negative {n : Nat} (h : (Nat.toDigits 10 n).length ≤ digitLimit) :
    Spells ('-' :: Nat.toDigits 10 n) (.int (-n))
  | text {ds : List Char} {s : String} (h : SpellsText ds s.toList) :
    Spells ('\x22' :: (ds ++ ['\x22'])) (.str s)
  | emptyArray {blanks : List Char} (h : Blanks blanks) :
    Spells ('[' :: (blanks ++ [']'])) (.arr [])
  | array {cs : List Char} {vs : List Json} (h : SpellsElements cs vs) :
    Spells ('[' :: (cs ++ [']'])) (.arr vs)
  | emptyObject {blanks : List Char} (h : Blanks blanks) :
    Spells ('\x7b' :: (blanks ++ ['\x7d'])) (.obj [])
  | object {cs : List Char} {ms : List (String × Json)} (hdistinct : (ms.map Prod.fst).Nodup)
    (h : SpellsMembers cs ms) : Spells ('\x7b' :: (cs ++ ['\x7d'])) (.obj ms)

/-- What spells a value, with any blanks around it. -/
inductive Padded : List Char → Json → Prop
  | mk {before cs after : List Char} {v : Json} (hbefore : Blanks before) (h : Spells cs v)
    (hafter : Blanks after) : Padded (before ++ (cs ++ after)) v

/-- What spells the elements of an array that has some. -/
inductive SpellsElements : List Char → List Json → Prop
  | last {cs : List Char} {v : Json} (h : Padded cs v) : SpellsElements cs [v]
  | cons {cs ds : List Char} {v : Json} {vs : List Json} (h : Padded cs v)
    (hs : SpellsElements ds vs) : SpellsElements (cs ++ ',' :: ds) (v :: vs)

/-- What spells the members of an object that has some. -/
inductive SpellsMembers : List Char → List (String × Json) → Prop
  | last {ns cs : List Char} {name : String} {v : Json} (hname : SpellsName ns name)
    (h : Padded cs v) : SpellsMembers (ns ++ ':' :: cs) [(name, v)]
  | cons {ns cs ds : List Char} {name : String} {v : Json} {ms : List (String × Json)}
    (hname : SpellsName ns name) (h : Padded cs v) (hs : SpellsMembers ds ms) :
    SpellsMembers (ns ++ ':' :: (cs ++ ',' :: ds)) ((name, v) :: ms)

end

/-! ### The values that have a spelling -/

mutual

/-- A value of integers that are not too long, texts, truth values and null, in arrays and
in objects with distinct names. -/
def Plain : Json → Prop
  | .null => True
  | .bool _ => True
  | .int n => (Nat.toDigits 10 n.natAbs).length ≤ digitLimit
  | .float _ => False
  | .str _ => True
  | .arr vs => PlainElements vs
  | .obj ms => (ms.map Prod.fst).Nodup ∧ PlainMembers ms
  | .record _ _ => False

def PlainElements : List Json → Prop
  | [] => True
  | v :: vs => v.Plain ∧ PlainElements vs

def PlainMembers : List (String × Json) → Prop
  | [] => True
  | (_, v) :: ms => v.Plain ∧ PlainMembers ms

end

theorem exists_spellsUnit {n : Nat} (h : n < 0x10000) : ∃ ds, SpellsUnit ds n := by
  have hdigit : ∀ k, HexDigit (k % 16).digitChar (k % 16) :=
    fun k => .lower (Nat.mod_lt k (by decide))
  have hvalue : ((n / 4096 % 16 * 16 + n / 256 % 16) * 16 + n / 16 % 16) * 16 + n % 16 = n := by
    omega
  have hunit := SpellsUnit.mk (hdigit (n / 4096)) (hdigit (n / 256)) (hdigit (n / 16)) (hdigit n)
  rw [hvalue] at hunit
  exact ⟨_, hunit⟩

/-- A character that cannot stand for itself can be escaped by number. -/
theorem exists_spellsChar (c : Char) : ∃ cs, SpellsChar cs c := by
  by_cases hself : c ≠ '\x22' ∧ c ≠ '\\' ∧ 0x1F < c.toNat
  · exact ⟨_, .literal hself.1 hself.2.1 hself.2.2⟩
  · have hsmall : c.toNat < 0x10000 := by
      by_contra hlarge
      refine hself ⟨?_, ?_, by omega⟩
      · rintro rfl
        exact hlarge (by decide)
      · rintro rfl
        exact hlarge (by decide)
    obtain ⟨ds, hds⟩ := exists_spellsUnit hsmall
    exact ⟨_, .unit hds⟩

theorem exists_spellsText : ∀ s : List Char, ∃ cs, SpellsText cs s
  | [] => ⟨[], .nil⟩
  | c :: s => by
    obtain ⟨cs, hcs⟩ := exists_spellsChar c
    obtain ⟨ds, hds⟩ := exists_spellsText s
    exact ⟨_, .cons hcs hds⟩

/-- A text without quotes, backslashes and control characters spells itself. -/
theorem spellsText_self : ∀ {s : List Char},
    (∀ c ∈ s, c ≠ '\x22' ∧ c ≠ '\\' ∧ 0x1F < c.toNat) → SpellsText s s
  | [], _ => .nil
  | c :: s, h => by
    obtain ⟨hquote, hbackslash, hcontrol⟩ := h c List.mem_cons_self
    have hrest := spellsText_self fun d hd => h d (List.mem_cons_of_mem _ hd)
    exact .cons (.literal hquote hbackslash hcontrol) hrest

theorem SpellsText.append : ∀ {cs ds s t : List Char}, SpellsText cs s → SpellsText ds t →
    SpellsText (cs ++ ds) (s ++ t)
  | _, _, _, _, .nil, ht => ht
  | _, _, _, _, .cons h hs, ht => by
    rw [List.append_assoc]
    exact .cons h (hs.append ht)

theorem blanks_nil : Blanks [] := nofun

/-- No blanks are needed. -/
theorem Spells.padded {cs : List Char} {v : Json} (h : Spells cs v) : Padded cs v := by
  have hpadded := Padded.mk blanks_nil h blanks_nil
  rwa [List.nil_append, List.append_nil] at hpadded

theorem exists_spellsName (name : String) : ∃ cs, SpellsName cs name := by
  obtain ⟨ds, hds⟩ := exists_spellsText name.toList
  exact ⟨_, .mk blanks_nil hds blanks_nil⟩

mutual

theorem Plain.exists_spells : ∀ {v : Json}, v.Plain → ∃ cs, Spells cs v
  | .null, _ => ⟨_, .null⟩
  | .bool true, _ => ⟨_, .trueValue⟩
  | .bool false, _ => ⟨_, .falseValue⟩
  | .int (.ofNat _), h => ⟨_, .natural h⟩
  | .int (.negSucc _), h => ⟨_, .negative h⟩
  | .str s, _ =>
    have ⟨_, hds⟩ := exists_spellsText s.toList
    ⟨_, .text hds⟩
  | .arr [], _ => ⟨_, .emptyArray blanks_nil⟩
  | .arr (_ :: _), h =>
    have ⟨_, hcs⟩ := PlainElements.exists_spells h (List.cons_ne_nil _ _)
    ⟨_, .array hcs⟩
  | .obj [], _ => ⟨_, .emptyObject blanks_nil⟩
  | .obj (_ :: _), h =>
    have ⟨_, hcs⟩ := PlainMembers.exists_spells h.2 (List.cons_ne_nil _ _)
    ⟨_, .object h.1 hcs⟩

theorem PlainElements.exists_spells : ∀ {vs : List Json}, PlainElements vs → vs ≠ [] →
    ∃ cs, SpellsElements cs vs
  | [], _, hne => absurd rfl hne
  | [_], h, _ =>
    have ⟨_, hcs⟩ := h.1.exists_spells
    ⟨_, .last hcs.padded⟩
  | _ :: _ :: _, h, _ =>
    have ⟨_, hcs⟩ := h.1.exists_spells
    have ⟨_, hds⟩ := PlainElements.exists_spells h.2 (List.cons_ne_nil _ _)
    ⟨_, .cons hcs.padded hds⟩

theorem PlainMembers.exists_spells : ∀ {ms : List (String × Json)}, PlainMembers ms → ms ≠ [] →
    ∃ cs, SpellsMembers cs ms
  | [], _, hne => absurd rfl hne
  | [(name, _)], h, _ =>
    have ⟨_, hns⟩ := exists_spellsName name
    have ⟨_, hcs⟩ := h.1.exists_spells
    ⟨_, .last hns hcs.padded⟩
  | (name, _) :: _ :: _, h, _ =>
    have ⟨_, hns⟩ := exists_spellsName name
    have ⟨_, hcs⟩ := h.1.exists_spells
    have ⟨_, hds⟩ := PlainMembers.exists_spells h.2 (List.cons_ne_nil _ _)
    ⟨_, .cons hns hcs.padded hds⟩

end

mutual

theorem Spells.plain : ∀ {cs : List Char} {v : Json}, Spells cs v → v.Plain
  | _, _, .null => trivial
  | _, _, .trueValue => trivial
  | _, _, .falseValue => trivial
  | _, _, .natural h => h
  | _, _, .negative h => by
    rw [Plain, Int.natAbs_neg, Int.natAbs_natCast]
    exact h
  | _, _, .text _ => trivial
  | _, _, .emptyArray _ => trivial
  | _, _, .array h => h.plain
  | _, _, .emptyObject _ => ⟨List.nodup_nil, trivial⟩
  | _, _, .object hdistinct h => ⟨hdistinct, h.plain⟩

theorem Padded.plain : ∀ {cs : List Char} {v : Json}, Padded cs v → v.Plain
  | _, _, .mk _ h _ => h.plain

theorem SpellsElements.plain : ∀ {cs : List Char} {vs : List Json}, SpellsElements cs vs →
    PlainElements vs
  | _, _, .last h => ⟨h.plain, trivial⟩
  | _, _, .cons h hs => ⟨h.plain, hs.plain⟩

theorem SpellsMembers.plain : ∀ {cs : List Char} {ms : List (String × Json)},
    SpellsMembers cs ms → PlainMembers ms
  | _, _, .last _ h => ⟨h.plain, trivial⟩
  | _, _, .cons _ h hs => ⟨h.plain, hs.plain⟩

end

/-- The plain values are those that have a spelling. -/
theorem plain_iff_exists_spelling (v : Json) : v.Plain ↔ ∃ cs, Padded cs v := by
  constructor
  · intro h
    obtain ⟨cs, hcs⟩ := h.exists_spells
    exact ⟨cs, hcs.padded⟩
  · rintro ⟨cs, hcs⟩
    exact hcs.plain

end Json
end ContentDecl
