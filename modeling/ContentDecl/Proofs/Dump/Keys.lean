/-
# Names as keys of a registry

A name may be any value that can be a key. Two names are one key if they are both
null, the same text, or the same number, whatever kind of number; so equality of
names is an equivalence, if no name is the number that equals nothing.

A definition that is put into a registry goes behind the others if its name is new.
Otherwise it takes the place of the one definition whose key equals its name, and
the key stays as it was. So the keys of a registry into which definitions are put
one after the other are their names, each as it came first.

Key definitions: `Json.identity?`, `Json.IsName`, `Dump.firstAppearances`.
Key theorems: `Json.equals_iff_identity`, `Registry.keys_put`, `Registry.mem_put`,
`Dump.firstAppearances_concat`.
-/
import ContentDecl.Model.Schema

namespace ContentDecl

theorem Magnitude.agrees_iff {m n : Magnitude} : m.agrees n = true ↔ m = n := by
  cases m <;> cases n <;> simp [Magnitude.agrees]

namespace Json

/-! ### Equality of names -/

/-- What a key is compared by. -/
inductive Identity where
  | null
  | text (s : String)
  | number (size : Magnitude)

/-- What a value is compared by, if it can be a key. -/
def identity? : Json → Option Identity
  | null => some .null
  | str s => some (.text s)
  | v => v.magnitude?.map .number

/-- A key agrees with the values that are compared by the same. -/
theorem agrees_iff_identity {v w : Json} (hv : v.isKey = true) :
    v.agrees w = true ↔ v.identity? = w.identity? := by
  cases v with
  | null | str => cases w <;> simp [agrees, identity?, magnitude?]
  | bool | int | float =>
    cases w <;> simp [agrees, identity?, magnitude?, Magnitude.agrees_iff]
  | arr | obj | record => simp [isKey] at hv

/-- A value that can be a name: a key other than the number that equals nothing. -/
structure IsName (v : Json) : Prop where
  isKey : v.isKey = true
  isNumber : v.isNaN = false

variable {u v w : Json}

theorem IsName.equals_eq_agrees (h : IsName v) : v.equals w = v.agrees w := by
  rw [equals, h.isNumber, Bool.not_false, Bool.true_and]

theorem equals_iff_identity (h : IsName v) : v.equals w = true ↔ v.identity? = w.identity? := by
  rw [h.equals_eq_agrees, agrees_iff_identity h.isKey]

theorem equals_self (h : IsName v) : v.equals v = true := (equals_iff_identity h).mpr rfl

theorem equals_trans (hu : IsName u) (hv : IsName v) (huv : u.equals v = true)
    (hvw : v.equals w = true) : u.equals w = true := by
  rw [equals_iff_identity hu] at huv ⊢
  rw [equals_iff_identity hv] at hvw
  exact huv.trans hvw

end Json

/-! ### Definitions put into a registry -/

namespace Registry

theorem keys_cons (entry : Json × Node) (rest : Registry) :
    keys (entry :: rest) = entry.1 :: keys rest := rfl

/-- A key that is there stays as it is and where it is; a new one comes last. -/
theorem keys_put (key : Json) (node : Node) : ∀ registry : Registry,
    (registry.put key node).keys
      = if registry.keys.any (·.agrees key) then registry.keys else registry.keys ++ [key]
  | [] => rfl
  | entry :: rest => by
    rw [put, keys_cons, List.any_cons]
    cases hentry : entry.1.agrees key with
    | true => rfl
    | false =>
      rw [if_neg Bool.false_ne_true, keys_cons, keys_put key node rest, Bool.false_or]
      cases (keys rest).any (·.agrees key) <;> rfl

/-- The entries of a registry into which a definition was put: the definition under a
key that its name agrees with, and those of other keys as they were. -/
theorem mem_put {key : Json} {node : Node} (hkey : key.agrees key = true) :
    ∀ {registry : Registry} {entry : Json × Node},
      registry.Pairwise (fun a b => a.1.agrees key = true → b.1.agrees key = false) →
      entry ∈ registry.put key node →
        (entry.1.agrees key = true ∧ entry.2 = node) ∨
          (entry.1.agrees key = false ∧ entry ∈ registry)
  | [], entry, _, hmem => by
    obtain rfl := List.mem_singleton.mp hmem
    exact .inl ⟨hkey, rfl⟩
  | first :: rest, entry, hone, hmem => by
    obtain ⟨hfirst, hrest⟩ := List.pairwise_cons.mp hone
    rw [put] at hmem
    split at hmem
    · -- The one key that agrees is the first, so that no other one does.
      rename_i hagrees
      obtain rfl | hmem := List.mem_cons.mp hmem
      · exact .inl ⟨hagrees, rfl⟩
      · exact .inr ⟨hfirst entry hmem hagrees, List.mem_cons_of_mem first hmem⟩
    · rename_i hdiffers
      obtain rfl | hmem := List.mem_cons.mp hmem
      · exact .inr ⟨by simpa using hdiffers, List.mem_cons_self⟩
      · obtain hput | ⟨hother, hmem⟩ := mem_put hkey hrest hmem
        · exact .inl hput
        · exact .inr ⟨hother, List.mem_cons_of_mem first hmem⟩

end Registry

/-! ### Names in the order of their first appearance -/

namespace Dump

/-- The names of a list, each where it comes first. -/
def firstAppearances : List Json → List Json
  | [] => []
  | name :: names => name :: (firstAppearances names).filter fun other => !name.equals other

theorem firstAppearances_subset : ∀ {names : List Json} {name : Json},
    name ∈ firstAppearances names → name ∈ names
  | first :: names, name, hmem => by
    obtain rfl | hmem := List.mem_cons.mp hmem
    · exact List.mem_cons_self
    · exact List.mem_cons_of_mem first (firstAppearances_subset (List.mem_filter.mp hmem).1)

/-- No two of them are equal. -/
theorem pairwise_firstAppearances : ∀ names : List Json,
    (firstAppearances names).Pairwise fun name other => name.equals other = false
  | [] => .nil
  | name :: names => by
    rw [firstAppearances, List.pairwise_cons]
    refine ⟨fun other hmem => ?_, (pairwise_firstAppearances names).filter _⟩
    simpa using (List.mem_filter.mp hmem).2

/-- One more name is listed if it equals none of those before. -/
theorem firstAppearances_concat (name : Json) : ∀ names : List Json,
    firstAppearances (names ++ [name])
      = firstAppearances names ++ if names.any (·.equals name) then [] else [name]
  | [] => rfl
  | first :: names => by
    rw [List.cons_append, firstAppearances, firstAppearances_concat name names, firstAppearances,
      List.filter_append, List.cons_append, List.any_cons]
    cases hfirst : first.equals name <;> cases names.any (·.equals name) <;> simp [hfirst]

/-- A name equals one of a list if and only if it equals one that is listed. -/
theorem any_firstAppearances (name : Json) : ∀ {names : List Json},
    (∀ other ∈ names, other.IsName) →
      (firstAppearances names).any (·.equals name) = names.any (·.equals name)
  | [], _ => rfl
  | first :: names, h => by
    obtain ⟨hfirst, hnames⟩ := List.forall_mem_cons.mp h
    rw [firstAppearances, List.any_cons, List.any_cons, ← any_firstAppearances name hnames]
    cases hequals : first.equals name with
    | true => rfl
    | false =>
      -- A name that is left out equals the first one, so it does not equal the given one.
      rw [Bool.false_or, Bool.false_or, Bool.eq_iff_iff, List.any_eq_true, List.any_eq_true]
      constructor
      · rintro ⟨other, hmem, hother⟩
        exact ⟨other, (List.mem_filter.mp hmem).1, hother⟩
      · rintro ⟨other, hmem, hother⟩
        refine ⟨other, List.mem_filter.mpr ⟨hmem, ?_⟩, hother⟩
        have hname := hnames other (firstAppearances_subset hmem)
        cases hleft : first.equals other with
        | false => rfl
        | true => rw [Json.equals_trans hfirst hname hleft hother] at hequals; cases hequals

end Dump
end ContentDecl
