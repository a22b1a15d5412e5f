/-
# Comments and literals in a text

A scanner goes through a text by characters and tells what is code, what is in a
comment and what is in a literal. A slash may open a comment, a star in a comment may
close it, a quote opens a literal, and inside one a backslash escapes the character
behind it. A literal ends at its quote, and one between single or double quotes also
at the end of the line, where it is not allowed to go on. A template, which stands between
back quotes, has holes: a dollar and a brace open one, and up to the brace that closes it
there is code, which may have templates again. What the scanner puts out is the text
without its comments.

A text is closed if the scanner comes out of it as it went in. Closed texts are scanned
one by one, wherever they stand, so two texts that are put together of closed pieces
with the same code have the same code.

Key definitions: `Mode`, `scan`, `codeOf`, `Closed`, `SameCode`, `IsPlain`.
Key theorems: `scan_append`, `SameCode.append`, `stays_iff_not_closesComment`,
`comment_sameCode`, `scan_escaped`, `literal_closed`.
-/
import ContentDecl.Proofs.TypeExpr.Literal
import Mathlib.Data.List.Forall2
import Mathlib.Data.List.Infix

namespace ContentDecl
namespace TypeScript

/-! ### The scanner -/

/-- Where the scanner is. -/
inductive Mode where
  | code
  /-- Behind a slash that may open a comment. -/
  | slash
  | lineComment
  | blockComment
  /-- In a comment, behind a star that may close it. -/
  | star
  | quoted (quote : Char)
  /-- In a literal, behind a backslash. -/
  | escaped (quote : Char)
  /-- In a template, behind a dollar that may open a hole. -/
  | dollar
  /-- In a hole, with some braces open there, and where in its code. -/
  | hole (braces : Nat) (mode : Mode)
  deriving DecidableEq, Repr

def isLineEnd (c : Char) : Bool :=
  c == '\n' || c == '\r' || c == '\u2028' || c == '\u2029'

def isQuote (c : Char) : Bool := c == '\x27' || c == '\x22' || c == '\x60'

/-- One character of code. -/
def codeStep (c : Char) : Mode × List Char :=
  if c == '/' then (.slash, []) else if isQuote c then (.quoted c, [c]) else (.code, [c])

/-- One character of a literal. -/
def quotedStep (quote c : Char) : Mode :=
  if c == '\\' then .escaped quote
  else if c == quote || (isLineEnd c && quote != '\x60') then .code
  else if c == '$' && quote == '\x60' then .dollar
  else .quoted quote

/-- Where the scanner is behind a character in a hole, from where it is in the code there.
A brace in the code is counted, and one that has no brace to close leads back to the
template. -/
def holeStep (c : Char) : Nat → Mode → Mode
  | braces, .code =>
    if c == '\x7b' then .hole (braces + 1) .code
    else if c == '\x7d' then
      match braces with
      | 0 => .quoted '\x60'
      | braces + 1 => .hole braces .code
    else .hole braces .code
  | braces, mode => .hole braces mode

/-- One character: where the scanner is behind it, and what it puts out. -/
def scanStep : Mode → Char → Mode × List Char
  | .code, c => codeStep c
  | .slash, c =>
    if c == '/' then (.lineComment, [])
    else if c == '*' then (.blockComment, [])
    else ((codeStep c).1, '/' :: (codeStep c).2)
  | .lineComment, c => if isLineEnd c then (.code, [c]) else (.lineComment, [])
  | .blockComment, c => (if c == '*' then .star else .blockComment, [])
  | .star, c => (if c == '/' then .code else if c == '*' then .star else .blockComment, [])
  | .quoted quote, c => (quotedStep quote c, [c])
  | .escaped quote, c => (.quoted quote, [c])
  | .dollar, c => (if c == '\x7b' then .hole 0 .code else quotedStep '\x60' c, [c])
  | .hole braces mode, c => (holeStep c braces (scanStep mode c).1, (scanStep mode c).2)

/-- The characters of a text one after the other. -/
def scan : Mode → List Char → Mode × List Char
  | mode, [] => (mode, [])
  | mode, c :: cs =>
    let (next, out) := scanStep mode c
    let (last, rest) := scan next cs
    (last, out ++ rest)

/-- What is still to be put out at the end of a text. -/
def Mode.pending : Mode → List Char
  | .slash => ['/']
  | .hole _ mode => mode.pending
  | _ => []

/-- A text without its comments. -/
def codeOf (s : String) : String :=
  let (last, out) := scan .code s.toList
  String.ofList (out ++ last.pending)

example : codeOf "`a$\x7b'\x7d' /* b */\x7d//` // c" = "`a$\x7b'\x7d' \x7d//` " := by decide +kernel

theorem scan_cons (mode : Mode) (c : Char) (cs : List Char) :
    scan mode (c :: cs) = ((scan (scanStep mode c).1 cs).1,
      (scanStep mode c).2 ++ (scan (scanStep mode c).1 cs).2) := rfl

theorem scan_append : ∀ (mode : Mode) (cs ds : List Char), scan mode (cs ++ ds)
    = ((scan (scan mode cs).1 ds).1, (scan mode cs).2 ++ (scan (scan mode cs).1 ds).2)
  | _, [], _ => rfl
  | mode, c :: cs, ds => by
    rw [List.cons_append, scan_cons, scan_cons, scan_append _ cs ds, List.append_assoc]

/-! ### Closed texts -/

/-- The scanner comes out of the text in code. -/
def Closed (s : String) : Prop := (scan .code s.toList).1 = .code

instance (s : String) : Decidable (Closed s) := inferInstanceAs (Decidable (_ = _))

/-- The scanner comes out of both texts in code, and has put out the same. -/
structure SameCode (s t : String) : Prop where
  closed : Closed s
  scan_eq : scan .code s.toList = scan .code t.toList

theorem Closed.sameCode {s : String} (h : Closed s) : SameCode s s := ⟨h, rfl⟩

namespace SameCode

variable {s t s' t' : String}

theorem closed_right (h : SameCode s t) : Closed t := by
  rw [Closed, ← h.scan_eq]
  exact h.closed

theorem codeOf_eq (h : SameCode s t) : codeOf s = codeOf t := by
  rw [codeOf, codeOf, h.scan_eq]

/-- Behind a closed text the scanner goes on as at the beginning. -/
theorem append (h : SameCode s t) (h' : SameCode s' t') : SameCode (s ++ s') (t ++ t') := by
  have hs : (scan .code s.toList).1 = .code := h.closed
  have ht : (scan .code t.toList).1 = .code := h.closed_right
  constructor
  · rw [Closed, String.toList_append, scan_append, hs]
    exact h'.closed
  · rw [String.toList_append, String.toList_append, scan_append, scan_append, hs, ht, h.scan_eq,
      h'.scan_eq]

theorem join : ∀ {texts others : List String}, List.Forall₂ SameCode texts others →
    SameCode (String.join texts) (String.join others)
  | [], [], _ => ⟨rfl, rfl⟩
  | _ :: _, _ :: _, .cons h hs => by
    rw [String.join_cons, String.join_cons]
    exact h.append (join hs)

theorem intercalate {separator : String} (hsep : Closed separator) :
    ∀ {texts others : List String}, List.Forall₂ SameCode texts others →
      SameCode (String.intercalate separator texts) (String.intercalate separator others)
  | [], [], _ => ⟨rfl, rfl⟩
  | [_], [_], .cons h _ => by
    rw [String.intercalate_singleton, String.intercalate_singleton]
    exact h
  | _ :: _ :: _, _ :: _ :: _, .cons h (.cons h' hs) => by
    rw [String.intercalate_cons_cons, String.intercalate_cons_cons]
    exact (h.append hsep.sameCode).append (intercalate hsep (.cons h' hs))

end SameCode

namespace Closed

theorem append {s t : String} (h : Closed s) (h' : Closed t) : Closed (s ++ t) :=
  (h.sameCode.append h'.sameCode).closed

theorem join {texts : List String} (h : ∀ text ∈ texts, Closed text) :
    Closed (String.join texts) :=
  (SameCode.join (List.forall₂_same.mpr fun text hmem => (h text hmem).sameCode)).closed

theorem intercalate {separator : String} (hsep : Closed separator) {texts : List String}
    (h : ∀ text ∈ texts, Closed text) : Closed (String.intercalate separator texts) :=
  (SameCode.intercalate hsep
    (List.forall₂_same.mpr fun text hmem => (h text hmem).sameCode)).closed

end Closed

/-! ### Marks between closed texts -/

theorem lineBreak_closed : Closed "\n" := by decide

theorem indent_closed : Closed "  " := by decide

theorem colon_closed : Closed ": " := by decide

theorem bar_closed : Closed " | " := by decide

theorem brackets_closed : Closed "[]" := by decide

/-! ### Comments -/

/-- A passage that closes a comment is in the text. -/
def ClosesComment (s : String) : Prop := ['*', '/'] <:+: s.toList

instance (s : String) : Decidable (ClosesComment s) := inferInstanceAs (Decidable (_ <:+: _))

/-- The scanner is in a comment, behind a star or not. -/
def Mode.InComment (mode : Mode) : Prop := mode = .blockComment ∨ mode = .star

/-- In a comment the scanner puts nothing out, and does not leave it if nothing closes it:
neither what comes, nor what comes behind a star. -/
theorem scan_comment : ∀ cs : List Char,
    (¬ ['*', '/'] <:+: cs → (scan .blockComment cs).1.InComment ∧
      (scan .blockComment cs).2 = []) ∧
    (¬ ['*', '/'] <:+: '*' :: cs → (scan .star cs).1.InComment ∧ (scan .star cs).2 = [])
  | [] => by simp [scan, Mode.InComment]
  | c :: cs => by
    obtain ⟨hblock, hstar⟩ := scan_comment cs
    have hrest : ∀ {d : Char}, ¬ ['*', '/'] <:+: d :: c :: cs → ¬ ['*', '/'] <:+: c :: cs :=
      fun h hin => h (hin.trans (List.suffix_cons _ _).isInfix)
    have htail : ¬ ['*', '/'] <:+: c :: cs → ¬ ['*', '/'] <:+: cs :=
      fun h hin => h (hin.trans (List.suffix_cons _ _).isInfix)
    constructor
    · intro h
      rw [scan_cons]
      by_cases hc : c = '*'
      · subst hc
        exact hstar h
      · simpa [scanStep, hc] using hblock (htail h)
    · intro h
      rw [scan_cons]
      have hslash : c ≠ '/' := by
        rintro rfl
        exact h (List.prefix_append ['*', '/'] cs).isInfix
      by_cases hc : c = '*'
      · subst hc
        exact hstar (hrest h)
      · simpa [scanStep, hc, hslash] using hblock (htail (hrest h))

/-- A star and a slash lead out of a comment, wherever in it they stand. -/
theorem scan_close {mode : Mode} (h : mode.InComment) : (scan mode ['*', '/']).1 = .code := by
  rcases h with rfl | rfl <;> rfl

/-- The scanner is in the comment behind each beginning of a text exactly if nothing in
the text closes it. -/
theorem stays_iff_not_closesComment (s : String) :
    (∀ said, said <+: s.toList → (scan .blockComment said).1.InComment) ↔ ¬ ClosesComment s := by
  constructor
  · rintro h ⟨before, after, hs⟩
    have hsaid : before ++ ['*', '/'] <+: s.toList := hs ▸ List.prefix_append _ after
    have hstill : (scan .blockComment (before ++ ['*', '/'])).1.InComment := h _ hsaid
    have hin : (scan .blockComment before).1.InComment :=
      h before ((List.prefix_append before _).trans hsaid)
    rw [scan_append, scan_close hin] at hstill
    rcases hstill with hcode | hcode <;> cases hcode
  · intro h said hsaid
    exact ((scan_comment said).1 fun hclose => h (hclose.trans hsaid.isInfix)).1

/-- A text between the marks of a comment. -/
def commentText (s : String) : String := "/** " ++ s ++ " */"

/-- Nothing is left of a comment that nothing in it closes. -/
theorem scan_commentText {s : String} (h : ¬ ClosesComment s) :
    scan .code (commentText s).toList = (.code, []) := by
  obtain ⟨hmode, hout⟩ := (scan_comment s.toList).1 h
  have hopen : scan .code "/** ".toList = (.blockComment, []) := rfl
  rw [commentText, String.toList_append, String.toList_append, List.append_assoc, scan_append,
    hopen, scan_append, hout]
  rcases hmode with hblock | hstar
  · rw [hblock]
    rfl
  · rw [hstar]
    rfl

theorem commentText_sameCode {s t : String} (hs : ¬ ClosesComment s) (ht : ¬ ClosesComment t) :
    SameCode (commentText s) (commentText t) := by
  refine ⟨?_, (scan_commentText hs).trans (scan_commentText ht).symm⟩
  rw [Closed, scan_commentText hs]

/-- A description that does not close its comment. -/
def StaysInComment (description : Json) : Prop :=
  description.isTrue = true → ¬ ClosesComment description.text

/-- Two descriptions that are both there or both not, and stay in their comments. -/
structure CommentsAlike (description other : Json) : Prop where
  isTrue : description.isTrue = other.isTrue
  left : StaysInComment description
  right : StaysInComment other

/-- Two comments are the same code, whatever they say. -/
theorem comment_sameCode {description other : Json} {before : String} (hbefore : Closed before)
    (h : CommentsAlike description other) :
    SameCode (comment description before) (comment other before) := by
  have hclose : " */\n" = " */" ++ "\n" := rfl
  unfold comment
  rw [← h.isTrue]
  split
  · rename_i htrue
    have htext := commentText_sameCode (h.left htrue) (h.right (h.isTrue ▸ htrue))
    have hall := (hbefore.sameCode.append htext).append lineBreak_closed.sameCode
    simpa only [commentText, hclose, String.append_assoc] using hall
  · exact ⟨rfl, rfl⟩

/-! ### Literals -/

/-- The characters of a text that are escaped stay in the literal, if they do not end the
line. -/
theorem scan_escaped : ∀ cs : List Char, (∀ c ∈ cs, isLineEnd c = false) →
    scan (.quoted '\x27') (cs.flatMap escape) = (.quoted '\x27', cs.flatMap escape)
  | [], _ => rfl
  | c :: cs, h => by
    obtain ⟨hc, hrest⟩ := List.forall_mem_cons.mp h
    have hone : scan (.quoted '\x27') (escape c) = (.quoted '\x27', escape c) := by
      unfold escape
      split
      · rfl
      · rename_i hplain
        simp only [Bool.or_eq_true, beq_iff_eq, not_or] at hplain
        simp [scan, scanStep, quotedStep, hplain, hc]
    rw [List.flatMap_cons, scan_append, hone, scan_escaped cs hrest]

/-- A text on one line is in its literal from the first quote to the last one. -/
theorem literal_closed {s : String} (h : ∀ c ∈ s.toList, isLineEnd c = false) :
    Closed (literal s) := by
  have hquote : scanStep .code '\x27' = (.quoted '\x27', ['\x27']) := rfl
  rw [Closed, literal, String.toList_ofList, scan_cons, hquote, scan_append, scan_escaped _ h]
  rfl

/-- A literal ends the line exactly if its text does. -/
theorem isLineEnd_escaped (cs : List Char) :
    (∀ c ∈ cs.flatMap escape, isLineEnd c = false) ↔ ∀ c ∈ cs, isLineEnd c = false := by
  have hone : ∀ c, (∀ d ∈ escape c, isLineEnd d = false) ↔ isLineEnd c = false := by
    intro c
    unfold escape
    split
    · simp [isLineEnd]
    · simp
  simp only [List.mem_flatMap, forall_exists_index, and_imp]
  constructor
  · exact fun h c hmem => (hone c).mp fun d hd => h d c hmem hd
  · exact fun h d c hmem hd => (hone c).mpr (h c hmem) d hd

/-! ### Plain texts -/

/-- A character that means nothing to the scanner, in code or in a literal. -/
def isPlainChar (c : Char) : Bool := c != '/' && c != '\\' && !isQuote c && !isLineEnd c

/-- A text that is the same in code and in a literal. -/
def IsPlain (s : String) : Prop := s.toList.all isPlainChar = true

instance (s : String) : Decidable (IsPlain s) := inferInstanceAs (Decidable (_ = _))

theorem IsPlain.of_mem {s : String} (h : IsPlain s) {c : Char} (hmem : c ∈ s.toList) :
    c ≠ '/' ∧ c ≠ '\\' ∧ isQuote c = false ∧ isLineEnd c = false := by
  have hc : isPlainChar c = true := List.all_eq_true.mp h c hmem
  simpa [isPlainChar, and_assoc] using hc

theorem scan_plain : ∀ cs : List Char, (∀ c ∈ cs, c ≠ '/' ∧ isQuote c = false) →
    scan .code cs = (.code, cs)
  | [], _ => rfl
  | c :: cs, h => by
    obtain ⟨⟨hslash, hquote⟩, hrest⟩ := List.forall_mem_cons.mp h
    simp [scan_cons, scanStep, codeStep, hslash, hquote, scan_plain cs hrest]

/-- Of a plain text everything is put out. -/
theorem IsPlain.scan_eq {s : String} (h : IsPlain s) : scan .code s.toList = (.code, s.toList) :=
  scan_plain s.toList fun _ hmem => ⟨(h.of_mem hmem).1, (h.of_mem hmem).2.2.1⟩

theorem IsPlain.closed {s : String} (h : IsPlain s) : Closed s := by
  rw [Closed, h.scan_eq]

theorem IsPlain.literal_closed {s : String} (h : IsPlain s) : Closed (literal s) :=
  TypeScript.literal_closed fun _ hmem => (h.of_mem hmem).2.2.2

/-- Behind a plain text and the mark that opens a comment the scanner is in the comment. -/
theorem IsPlain.scan_opening {before : String} (h : IsPlain before) (said : List Char) :
    (scan .code ((before ++ "/** ").toList ++ said)).1 = (scan .blockComment said).1 := by
  have hbefore : (scan .code before.toList).1 = .code := h.closed
  have hopen : scan .code "/** ".toList = (.blockComment, []) := rfl
  rw [String.toList_append, List.append_assoc, scan_append, hbefore, scan_append, hopen]

/-- Of a printed comment that nothing in it closes, what is before it and the line break
are left. -/
theorem IsPlain.scan_printed {before : String} {description : Json} (h : IsPlain before)
    (htrue : description.isTrue = true) (hstays : ¬ ClosesComment description.text) :
    scan .code (comment description before).toList = (.code, (before ++ "\n").toList) := by
  have hclose : " */\n" = " */" ++ "\n" := rfl
  have htext : comment description before
      = before ++ (commentText description.text ++ "\n") := by
    rw [comment, if_pos htrue, hclose, commentText]
    simp only [String.append_assoc]
  have hbreak : scan .code "\n".toList = (.code, "\n".toList) := rfl
  rw [htext, String.toList_append, String.toList_append, scan_append, h.scan_eq, scan_append,
    scan_commentText hstays, hbreak, String.toList_append]
  rfl

/-- A plain text needs no escapes. -/
theorem IsPlain.literal_eq {s : String} (h : IsPlain s) :
    literal s = "'" ++ s ++ "'" := by
  have hunescaped : IsUnescaped s := by
    intro c hmem
    obtain ⟨-, hbackslash, hquote, -⟩ := h.of_mem hmem
    simp only [isQuote, Bool.or_eq_false_iff, beq_eq_false_iff_ne] at hquote
    exact ⟨hbackslash, hquote.1.1⟩
  exact ((bareLiteral_eq_literal_iff s).mpr hunescaped).symm

end TypeScript
end ContentDecl
