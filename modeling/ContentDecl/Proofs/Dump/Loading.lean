/-
# Loading depends on the value, not on its spelling

A file is read as text whose lines may end in any way; the line ends are unified before the
value is read. Carriage returns stand only among the blanks of a spelling, so with unified
line ends it is a spelling of the same value (`Padded.unifyLines`). Hence a file that holds
any spelling of an object is loaded as the object itself is, to the same schema or with the
same fault, and a file with another value is refused by its path.

Line ends are unified part by part unless a border between two parts cuts a line end in
two (`unifyLines_append`). No value ends with a carriage return, and what stands behind
blanks inside a spelling starts with no line feed.

Key theorems: `unifyLines_append`, `Padded.unifyLines`, `ofBytes_spelled`.
-/
import ContentDecl.Proofs.Json.Reading
import ContentDecl.Proofs.Rendering.Reported

namespace ContentDecl
namespace Json

/-! ### Line ends -/

theorem unifyLines_cons {c : Char} (h : c ≠ '\r') (rest : List Char) :
    unifyLines (c :: rest) = c :: unifyLines rest := by
  rw [unifyLines]
  · exact fun _ heq => absurd heq h
  · exact fun heq => absurd heq h

theorem unifyLines_return {rest : List Char} (h : rest.head? ≠ some '\n') :
    unifyLines ('\r' :: rest) = '\n' :: unifyLines rest := by
  rw [unifyLines]
  rintro _ rfl
  exact h rfl

/-- Without a carriage return there is nothing to unify. -/
theorem unifyLines_eq_self : ∀ {cs : List Char}, '\r' ∉ cs → unifyLines cs = cs
  | [], _ => rfl
  | c :: cs, h => by
    rw [unifyLines_cons (List.ne_of_not_mem_cons h).symm,
      unifyLines_eq_self (List.not_mem_of_not_mem_cons h)]

theorem getLast?_ne_of_cons {c d : Char} {cs : List Char} (h : (c :: cs).getLast? ≠ some d) :
    cs.getLast? ≠ some d := by
  cases cs with
  | nil => exact nofun
  | cons e es => rwa [List.getLast?_cons_cons] at h

/-- Line ends are unified part by part, unless the border cuts one in two. -/
theorem unifyLines_append {cs rest : List Char}
    (h : cs.getLast? ≠ some '\r' ∨ rest.head? ≠ some '\n') :
    unifyLines (cs ++ rest) = unifyLines cs ++ unifyLines rest := by
  fun_induction unifyLines cs with
  | case1 cs ih =>
    have hborder := h.imp_left fun hlast => getLast?_ne_of_cons (getLast?_ne_of_cons hlast)
    rw [List.cons_append, List.cons_append, unifyLines, ih hborder, List.cons_append]
  | case2 cs hfeed ih =>
    have hhead : (cs ++ rest).head? ≠ some '\n' := by
      cases cs with
      | nil => exact h.resolve_left (· rfl)
      | cons d ds =>
        intro heq
        obtain rfl := Option.some.inj heq
        exact hfeed ds rfl
    rw [List.cons_append, unifyLines_return hhead, ih (h.imp_left getLast?_ne_of_cons),
      List.cons_append]
  | case3 c cs hboth hreturn ih =>
    rw [List.cons_append, unifyLines_cons hreturn, ih (h.imp_left getLast?_ne_of_cons),
      List.cons_append]
  | case4 => rfl

theorem Blanks.unifyLines {blanks : List Char} (h : Blanks blanks) :
    Blanks (Json.unifyLines blanks) := by
  intro c hmem
  fun_induction Json.unifyLines blanks with
  | case1 cs ih =>
    obtain rfl | hmem := List.mem_cons.mp hmem
    · rfl
    · exact ih (fun d hd => h d (List.mem_cons_of_mem _ (List.mem_cons_of_mem _ hd))) hmem
  | case2 cs hfeed ih =>
    obtain rfl | hmem := List.mem_cons.mp hmem
    · rfl
    · exact ih (fun d hd => h d (List.mem_cons_of_mem _ hd)) hmem
  | case3 d cs hboth hreturn ih =>
    obtain rfl | hmem := List.mem_cons.mp hmem
    · exact h _ List.mem_cons_self
    · exact ih (fun e he => h e (List.mem_cons_of_mem _ he)) hmem
  | case4 => cases hmem

/-! ### Carriage returns in a spelling -/

theorem SpellsUnit.no_return {ds : List Char} {n : Nat} (h : SpellsUnit ds n) : '\r' ∉ ds := by
  have hdigit : ∀ {c : Char} {d : Nat}, HexDigit c d → '\r' ≠ c := by
    have hlower : ∀ d < 16, '\r' ≠ Nat.digitChar d := by decide
    have hupper : ∀ d < 16, '\r' ≠ (Nat.digitChar d).toUpper := by decide
    intro c d h
    cases h with
    | lower h => exact hlower d h
    | upper h => exact hupper d h
  cases h with
  | mk ha hb hc hd => simp [hdigit ha, hdigit hb, hdigit hc, hdigit hd]

theorem SpellsChar.no_return {cs : List Char} {c : Char} (h : SpellsChar cs c) : '\r' ∉ cs := by
  cases h with
  | literal _ _ hcontrol =>
    intro hmem
    obtain rfl := List.mem_singleton.mp hmem
    exact absurd hcontrol (by decide)
  | letter h =>
    have hletters : ∀ entry ∈ letterEscapes, '\r' ∉ ['\\', entry.1] := by decide
    exact hletters _ h
  | unit h => simpa using h.no_return
  | pair _ hhigh hlow => simpa using ⟨hhigh.no_return, hlow.no_return⟩

theorem SpellsText.no_return : ∀ {cs s : List Char}, SpellsText cs s → '\r' ∉ cs
  | _, _, .nil => List.not_mem_nil
  | _, _, .cons h hs => fun hmem => (List.mem_append.mp hmem).elim h.no_return hs.no_return

theorem toDigits_no_return (n : Nat) : '\r' ∉ Nat.toDigits 10 n :=
  fun hmem => absurd (isDigit_of_mem_toDigits _ hmem) (by decide)

/-- A value ends with no carriage return. -/
theorem Spells.getLast?_ne {cs : List Char} {v : Json} (h : Spells cs v) :
    cs.getLast? ≠ some '\r' := by
  have hlast : ∀ {c d : Char} {ds : List Char}, d ≠ '\r' →
      (c :: (ds ++ [d])).getLast? ≠ some '\r' := by
    intro c d ds hne heq
    rw [← List.cons_append, List.getLast?_append, List.getLast?_singleton, Option.some_or] at heq
    exact hne (Option.some.inj heq)
  cases h with
  | natural _ => exact fun heq => toDigits_no_return _ (List.mem_of_getLast? heq)
  | negative _ => exact fun heq => toDigits_no_return _ (by simpa using List.mem_of_getLast? heq)
  | null => decide
  | trueValue => decide
  | falseValue => decide
  | _ => exact hlast (by decide)

/-- A name between blanks. -/
theorem SpellsName.unifyLines {ns : List Char} {name : String} (h : SpellsName ns name) :
    SpellsName (Json.unifyLines ns) name := by
  cases h with
  | @mk before ds after _ hbefore h hafter =>
    have hquoted : Json.unifyLines (ds ++ '\x22' :: after)
        = ds ++ '\x22' :: Json.unifyLines after := by
      rw [unifyLines_append (.inr (by simp)), unifyLines_eq_self h.no_return,
        unifyLines_cons (by decide)]
    rw [unifyLines_append (.inr (by simp)), unifyLines_cons (by decide), hquoted]
    exact .mk hbefore.unifyLines h hafter.unifyLines

mutual

/-- What spells a value spells it with unified line ends, too. -/
theorem Spells.unifyLines : ∀ {cs : List Char} {v : Json}, Spells cs v →
    Spells (Json.unifyLines cs) v
  | _, _, .null => by
    rw [unifyLines_eq_self (by decide)]
    exact .null
  | _, _, .trueValue => by
    rw [unifyLines_eq_self (by decide)]
    exact .trueValue
  | _, _, .falseValue => by
    rw [unifyLines_eq_self (by decide)]
    exact .falseValue
  | _, _, .natural hlimit => by
    rw [unifyLines_eq_self (toDigits_no_return _)]
    exact .natural hlimit
  | _, _, .negative hlimit => by
    rw [unifyLines_cons (by decide), unifyLines_eq_self (toDigits_no_return _)]
    exact .negative hlimit
  | _, _, .text h => by
    rw [unifyLines_cons (by decide), unifyLines_append (.inr (by simp)),
      unifyLines_eq_self h.no_return]
    exact .text h
  | _, _, .emptyArray h => by
    rw [unifyLines_cons (by decide), unifyLines_append (.inr (by simp))]
    exact .emptyArray h.unifyLines
  | _, _, .array h => by
    rw [unifyLines_cons (by decide), unifyLines_append (.inr (by simp))]
    exact .array h.unifyLines
  | _, _, .emptyObject h => by
    rw [unifyLines_cons (by decide), unifyLines_append (.inr (by simp))]
    exact .emptyObject h.unifyLines
  | _, _, .object hdistinct h => by
    rw [unifyLines_cons (by decide), unifyLines_append (.inr (by simp))]
    exact .object hdistinct h.unifyLines

theorem Padded.unifyLines : ∀ {cs : List Char} {v : Json}, Padded cs v →
    Padded (Json.unifyLines cs) v
  | _, _, @Padded.mk before cs after _ hbefore h hafter => by
    have hhead : (cs ++ after).head? ≠ some '\n' := by
      obtain ⟨c, ds, rfl, hblank, -, -⟩ := h.exists_cons
      rintro ⟨⟩
      cases hblank
    rw [unifyLines_append (.inr hhead), unifyLines_append (.inl h.getLast?_ne)]
    exact .mk hbefore.unifyLines h.unifyLines hafter.unifyLines

theorem SpellsElements.unifyLines : ∀ {cs : List Char} {vs : List Json}, SpellsElements cs vs →
    SpellsElements (Json.unifyLines cs) vs
  | _, _, .last h => .last h.unifyLines
  | _, _, .cons h hs => by
    rw [unifyLines_append (.inr (by simp)), unifyLines_cons (by decide)]
    exact .cons h.unifyLines hs.unifyLines

theorem SpellsMembers.unifyLines : ∀ {cs : List Char} {ms : List (String × Json)},
    SpellsMembers cs ms → SpellsMembers (Json.unifyLines cs) ms
  | _, _, .last hname h => by
    rw [unifyLines_append (.inr (by simp)), unifyLines_cons (by decide)]
    exact .last hname.unifyLines h.unifyLines
  | _, _, .cons hname h hs => by
    rw [unifyLines_append (.inr (by simp)), unifyLines_cons (by decide),
      unifyLines_append (.inr (by simp)), unifyLines_cons (by decide)]
    exact .cons hname.unifyLines h.unifyLines hs.unifyLines

end

end Json

/-! ### Files -/

namespace Dump

open Result

/-- What a file with a spelling of a value holds. -/
theorem ofBytes_padded (path : String) {text : String} {v : Json}
    (h : Json.Padded text.toList v) :
    (∀ members, v = .obj members → ofBytes path text.toUTF8 = schema v) ∧
    ((∀ members, v ≠ .obj members) → ofBytes path text.toUTF8 = .error (.notObject path)) := by
  have hdecode : Json.decode (Json.unifyLines text.toList) = .ok v := h.unifyLines.decode
  rw [ofBytes, textOf_toUTF8, ok_bind, hdecode]
  refine ⟨?_, fun hno => ?_⟩
  · rintro members rfl
    rfl
  · cases v with
    | obj members => exact absurd rfl (hno members)
    | _ => rfl

/-- **Loading depends on the value, not on its spelling.** The plain values are those with a
spelling. A file with any spelling of an object is loaded as the object itself is, to the
same schema or with the same fault; a file with any spelling of another value is refused
with a message on the path. -/
theorem ofBytes_spelled (path : String) (v : Json) :
    (v.Plain ↔ ∃ text : String, Json.Padded text.toList v) ∧
    ∀ text : String, Json.Padded text.toList v →
      (∀ members, v = .obj members → ofBytes path text.toUTF8 = schema v) ∧
      ((∀ members, v ≠ .obj members) → ∃ fault, ofBytes path text.toUTF8 = .error fault ∧
        fault.isLoadFault = true ∧
        fault.message? = some (path ++ ": expected a JSON object at the top level")) := by
  refine ⟨?_, fun text h => ⟨(ofBytes_padded path h).1, fun hno => ?_⟩⟩
  · rw [Json.plain_iff_exists_spelling]
    constructor
    · rintro ⟨cs, hcs⟩
      exact ⟨String.ofList cs, by rwa [String.toList_ofList]⟩
    · rintro ⟨text, htext⟩
      exact ⟨text.toList, htext⟩
  · exact ⟨.notObject path, (ofBytes_padded path h).2 hno, rfl, rfl⟩

/-- A dump of one document type, whose name is beyond the first plane. -/
def clefDump : Json := .obj [("documentTypeDefMap", .obj [("𝄞", .obj [])])]

/-- The dump with escapes, blanks and line ends of all kinds. -/
def clefText : String :=
  "\r\n\x7b\"documen\\u0074TypeDefMap\"\t:\r\x7b\"\\uD834\\udd1e\":\x7b \x7d \x7d\n\x7d"

theorem clefText_loaded :
    Json.Padded clefText.toList clefDump ∧ ofBytes "dump.json" clefText.toUTF8 = schema clefDump ∧
    Json.Padded "[\r\n]".toList (.arr []) ∧
    ∃ fault, ofBytes "dump.json" "[\r\n]".toUTF8 = .error fault ∧ fault.isLoadFault = true ∧
      fault.message? = some "dump.json: expected a JSON object at the top level" := by
  have hletter : Json.SpellsUnit ['0', '0', '7', '4'] 't'.toNat :=
    .mk (@Json.HexDigit.lower 0 (by decide)) (@Json.HexDigit.lower 0 (by decide))
      (@Json.HexDigit.lower 7 (by decide)) (@Json.HexDigit.lower 4 (by decide))
  have hhigh : Json.SpellsUnit ['D', '8', '3', '4'] (Json.highUnit '𝄞') :=
    .mk (@Json.HexDigit.upper 13 (by decide)) (@Json.HexDigit.lower 8 (by decide))
      (@Json.HexDigit.lower 3 (by decide)) (@Json.HexDigit.lower 4 (by decide))
  have hlow : Json.SpellsUnit ['d', 'd', '1', 'e'] (Json.lowUnit '𝄞') :=
    .mk (@Json.HexDigit.lower 13 (by decide)) (@Json.HexDigit.lower 13 (by decide))
      (@Json.HexDigit.lower 1 (by decide)) (@Json.HexDigit.lower 14 (by decide))
  have hbefore : Json.SpellsText "documen".toList "documen".toList :=
    Json.spellsText_self (by simp)
  have hafter : Json.SpellsText "TypeDefMap".toList "TypeDefMap".toList :=
    Json.spellsText_self (by simp)
  have hsection : Json.SpellsText _ "documentTypeDefMap".toList :=
    hbefore.append (.cons (.unit hletter) hafter)
  have hclef : Json.SpellsText _ "𝄞".toList := .cons (.pair (by decide) hhigh hlow) .nil
  have hempty : Json.Padded _ (.obj []) :=
    @Json.Padded.mk [] _ [' '] _ (by decide) (@Json.Spells.emptyObject [' '] (by decide))
      (by decide)
  have hdocuments : Json.Padded _ (.obj [("𝄞", .obj [])]) :=
    @Json.Padded.mk ['\r'] _ ['\n'] _ (by decide)
      (.object (by decide)
        (.last (@Json.SpellsName.mk [] _ [] _ (by decide) hclef (by decide)) hempty))
      (by decide)
  have hdump : Json.Padded clefText.toList clefDump :=
    @Json.Padded.mk ['\r', '\n'] _ [] _ (by decide)
      (.object (by decide)
        (.last (@Json.SpellsName.mk [] _ ['\t'] _ (by decide) hsection (by decide)) hdocuments))
      (by decide)
  have harray : Json.Padded "[\r\n]".toList (.arr []) :=
    Json.Spells.padded (@Json.Spells.emptyArray ['\r', '\n'] (by decide))
  exact ⟨hdump, ((ofBytes_spelled "dump.json" clefDump).2 clefText hdump).1 _ rfl, harray,
    ((ofBytes_spelled "dump.json" (.arr [])).2 "[\r\n]" harray).2 nofun⟩

end Dump
end ContentDecl
