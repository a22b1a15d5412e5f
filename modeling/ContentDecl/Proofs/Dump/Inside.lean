/-
# What is inside an object

The definitions of a list are read one after the other, each at its own place,
whatever they are: `readAll` is this loop. What is read lies inside the object
that it is read from, so a statement about all objects may be proved from the
statement about what is inside.

For each member that is looked at there are the ways in which it can be there or
not, and what is read then.

Key definitions: `readAll`.
Key theorems: `readAll_ok_iff`, `forall_of_readAll`, `readAll_failsOnly`,
`inside_induction`, `fieldsIn_cases`, `itemsIn_cases`, `shapeIn_cases`,
`itemIn_cases`, `computedFields_cases`, `section_cases`.
-/
import ContentDecl.Dump.Lemmas
import ContentDecl.Proofs.Result

namespace ContentDecl
namespace Dump

open Result

/-! ### Definitions one after the other -/

/-- Definitions read one after the other, each at its own place. -/
def readAll (read : Location → Json → Except Fault Node) (step : Nat → Step) (place : Location)
    (index : Nat) : List Json → Except Fault (List Node)
  | [] => .ok []
  | raw :: rest => do
    let node ← read (place.down (step index)) raw
    let nodes ← readAll read step place (index + 1) rest
    return node :: nodes

theorem fieldsFrom_eq_readAll (place : Location) : ∀ (index : Nat) (raws : List Json),
    fieldsFrom place index raws = readAll field .field place index raws
  | _, [] => rfl
  | index, raw :: rest => by
    rw [fieldsFrom, readAll, fieldsFrom_eq_readAll place (index + 1) rest]

theorem itemsFrom_eq_readAll (place : Location) : ∀ (index : Nat) (raws : List Json),
    itemsFrom place index raws = readAll item .itemAt place index raws
  | _, [] => rfl
  | index, raw :: rest => by
    rw [itemsFrom, readAll, itemsFrom_eq_readAll place (index + 1) rest]

theorem computedFrom_eq_readAll (place : Location) : ∀ (index : Nat) (raws : List Json),
    computedFrom place index raws = readAll computedField .computed place index raws
  | _, [] => rfl
  | index, raw :: rest => by
    rw [computedFrom, readAll, computedFrom_eq_readAll place (index + 1) rest]

section ReadAll

variable {read : Location → Json → Except Fault Node} {step : Nat → Step} {place : Location}

theorem readAll_cons_eq_ok {index : Nat} {raw : Json} {rest : List Json} {nodes : List Node} :
    readAll read step place index (raw :: rest) = .ok nodes ↔
      ∃ node, read (place.down (step index)) raw = .ok node ∧
        ∃ others, readAll read step place (index + 1) rest = .ok others ∧
          node :: others = nodes := by
  simp only [readAll, bind_eq_ok, pure_eq_ok]

/-- If reading each definition succeeds exactly for those of a form, then reading
all of them succeeds exactly if each is of the form. -/
theorem readAll_ok_iff {form : Json → Prop} : ∀ (index : Nat) (raws : List Json),
    (∀ raw ∈ raws, ∀ place, (∃ node, read place raw = .ok node) ↔ form raw) →
    ((∃ nodes, readAll read step place index raws = .ok nodes) ↔ ∀ raw ∈ raws, form raw)
  | _, [], _ => by simp [readAll]
  | index, raw :: rest, h => by
    have hraw := h raw List.mem_cons_self (place.down (step index))
    have hrest := readAll_ok_iff (index + 1) rest fun raw hmem =>
      h raw (List.mem_cons_of_mem _ hmem)
    rw [List.forall_mem_cons, ← hraw, ← hrest]
    constructor
    · intro hboth
      obtain ⟨nodes, hok⟩ := hboth
      obtain ⟨node, hn, others, ho, -⟩ := readAll_cons_eq_ok.mp hok
      exact ⟨⟨node, hn⟩, ⟨others, ho⟩⟩
    · intro hboth
      obtain ⟨⟨node, hn⟩, ⟨others, ho⟩⟩ := hboth
      exact ⟨node :: others, readAll_cons_eq_ok.mpr ⟨node, hn, others, ho, rfl⟩⟩

/-- What holds of each definition that is read holds of all of them. -/
theorem forall_of_readAll {p : Node → Prop} : ∀ {index : Nat} {raws : List Json} {nodes : List Node},
    (∀ raw ∈ raws, ∀ place node, read place raw = .ok node → p node) →
    readAll read step place index raws = .ok nodes → ∀ node ∈ nodes, p node
  | _, [], nodes, _, h => by
    obtain rfl := Except.ok.inj h
    exact nofun
  | index, raw :: rest, nodes, hread, h => by
    obtain ⟨node, hn, others, ho, rfl⟩ := readAll_cons_eq_ok.mp h
    intro other hmem
    rcases List.mem_cons.mp hmem with rfl | hmem
    · exact hread raw List.mem_cons_self _ _ hn
    · exact forall_of_readAll (fun raw hmem => hread raw (List.mem_cons_of_mem _ hmem)) ho
        other hmem

/-- Reading stops at an element only if the elements before it are read. -/
theorem readAll_failsOnly {p : Fault → Prop} : ∀ (start : Nat) (raws : List Json),
    (∀ i raw, raws[i]? = some raw →
      (∀ j < i, ∀ other, raws[j]? = some other →
        ∃ node, read (place.down (step (start + j))) other = .ok node) →
      FailsOnly p (read (place.down (step (start + i))) raw)) →
    FailsOnly p (readAll read step place start raws)
  | _, [], _ => .ok []
  | start, raw :: rest, h => by
    refine .bind (h 0 raw rfl nofun) fun node hnode => .bind ?_ fun nodes _ => .ok (node :: nodes)
    refine readAll_failsOnly (start + 1) rest fun i other hother hbefore => ?_
    rw [Nat.add_right_comm]
    refine h (i + 1) other hother fun j hj earlier hearlier => ?_
    cases j with
    | zero =>
      obtain rfl : raw = earlier := by simpa using hearlier
      exact ⟨node, hnode⟩
    | succ j =>
      have := hbefore j (by omega) earlier (by simpa using hearlier)
      rwa [Nat.add_right_comm] at this

end ReadAll

/-! ### Inside an object -/

theorem sizeOf_lookup_lt {key : String} {v : Json} : ∀ {members : List (String × Json)},
    members.lookup key = some v → sizeOf v < sizeOf members
  | [], h => by simp at h
  | (name, w) :: rest, h => by
    by_cases hkey : key = name
    · subst hkey
      rw [List.lookup_cons_self, Option.some.injEq] at h
      subst h
      simp
      omega
    · rw [lookup_cons_ne w rest (Ne.symm hkey)] at h
      have := sizeOf_lookup_lt h
      simp
      omega

theorem sizeOf_element_lt {members : List (String × Json)} {key : String} {raws : List Json}
    (h : members.lookup key = some (.arr raws)) {raw : Json} (hmem : raw ∈ raws) :
    sizeOf raw < sizeOf members := by
  have harr := sizeOf_lookup_lt h
  have hraw := List.sizeOf_lt_of_mem hmem
  rw [Json.arr.sizeOf_spec] at harr
  omega

theorem sizeOf_members_lt {members type : List (String × Json)} {key : String}
    (h : members.lookup key = some (.obj type)) : sizeOf type < sizeOf members := by
  have hobj := sizeOf_lookup_lt h
  rw [Json.obj.sizeOf_spec] at hobj
  omega

/-- What holds of an object if it holds of everything inside it holds of every
value. -/
theorem inside_induction {p : Json → Prop}
    (other : ∀ raw, (∀ members, raw ≠ .obj members) → p raw)
    (object : ∀ members, (∀ inner : Json, sizeOf inner < sizeOf members → p inner) →
      p (.obj members))
    (raw : Json) : p raw := by
  cases raw with
  | obj members => exact object members fun inner _ => inside_induction other object inner
  | _ => exact other _ nofun
termination_by sizeOf raw

/-- The fields of an object: there are none, or an array is read, or a value that
can only be without objects. -/
theorem fieldsIn_cases (place : Location) (members : List (String × Json)) :
    (members.lookup "fieldDefs" = none ∧ fieldsIn place members = .ok []) ∨
    (∃ raws, members.lookup "fieldDefs" = some (.arr raws) ∧
      fieldsIn place members = readAll field .field place 0 raws) ∨
    (∃ v, members.lookup "fieldDefs" = some v ∧ (∀ vs, v ≠ .arr vs) ∧
      fieldsIn place members = if v.isTrue then noObjects v else .ok []) := by
  rw [fieldsIn_eq]
  cases members.lookup "fieldDefs" with
  | none => exact .inl ⟨rfl, rfl⟩
  | some v =>
    cases v with
    | arr raws => exact .inr (.inl ⟨raws, rfl, fieldsFrom_eq_readAll place 0 raws⟩)
    | _ => exact .inr (.inr ⟨_, rfl, nofun, rfl⟩)

/-- The items of an object: they are missing, or an array is read, or a value that
can only be without objects. -/
theorem itemsIn_cases (place : Location) (members : List (String × Json)) :
    (members.lookup "of" = none ∧ itemsIn place members = .error (.defect place (.missing "of"))) ∨
    (∃ raws, members.lookup "of" = some (.arr raws) ∧
      itemsIn place members = readAll item .itemAt place 0 raws) ∨
    (∃ v, members.lookup "of" = some v ∧ (∀ vs, v ≠ .arr vs) ∧
      itemsIn place members = noObjects v) := by
  rw [itemsIn_eq]
  cases members.lookup "of" with
  | none => exact .inl ⟨rfl, rfl⟩
  | some v =>
    cases v with
    | arr raws => exact .inr (.inl ⟨raws, rfl, itemsFrom_eq_readAll place 0 raws⟩)
    | _ => exact .inr (.inr ⟨_, rfl, nofun, rfl⟩)

/-- The shape of an object: it is missing, or an object is read, or a value that is
none. -/
theorem shapeIn_cases (place : Location) (members : List (String × Json)) :
    (members.lookup "typeDef" = none ∧
      shapeIn place members = .error (.defect place (.missing "typeDef"))) ∨
    (∃ type, members.lookup "typeDef" = some (.obj type) ∧
      shapeIn place members = (.shape ∘ .group) <$> fieldsIn (place.down .shape) type) ∨
    (∃ v, members.lookup "typeDef" = some v ∧ (∀ type, v ≠ .obj type) ∧
      shapeIn place members = .error .missingAttribute) := by
  rw [shapeIn_eq]
  cases members.lookup "typeDef" with
  | none => exact .inl ⟨rfl, rfl⟩
  | some v =>
    cases v with
    | obj type => exact .inr (.inl ⟨type, rfl, rfl⟩)
    | _ => exact .inr (.inr ⟨_, rfl, nofun, rfl⟩)

/-- The item of an object: it is missing, or it is read. -/
theorem itemIn_cases (place : Location) (members : List (String × Json)) :
    (members.lookup "of" = none ∧ itemIn place members = .error (.defect place (.missing "of"))) ∨
    (∃ raw, members.lookup "of" = some raw ∧ itemIn place members = item (place.down .item) raw) := by
  rw [itemIn_eq]
  cases members.lookup "of" with
  | none => exact .inl ⟨rfl, rfl⟩
  | some raw => exact .inr ⟨raw, rfl, rfl⟩

/-- The computed fields of an object: there are none, or the elements of a value are
read, or a value without elements. -/
theorem computedFields_cases (place : Location) (members : List (String × Json)) :
    ((∀ v, members.lookup "computedFields" = some v → v.isTrue = false) ∧
      computedFields place members = .ok []) ∨
    (∃ v raws, members.lookup "computedFields" = some v ∧ v.isTrue = true ∧
      v.elements? = some raws ∧
      computedFields place members = readAll computedField .computed place 0 raws) ∨
    (∃ v, members.lookup "computedFields" = some v ∧ v.isTrue = true ∧ v.elements? = none ∧
      computedFields place members = .error .typeMismatch) := by
  unfold computedFields Json.member Json.orElse
  cases members.lookup "computedFields" with
  | none => exact .inl ⟨nofun, rfl⟩
  | some v =>
    cases htrue : v.isTrue with
    | false =>
      refine .inl ⟨?_, by simp [htrue, Json.elements?, computedFrom]⟩
      rintro _ ⟨⟩
      exact htrue
    | true =>
      cases hraws : v.elements? with
      | none => exact .inr (.inr ⟨v, rfl, htrue, hraws, by simp [htrue, hraws]⟩)
      | some raws =>
        refine .inr (.inl ⟨v, raws, rfl, htrue, hraws, ?_⟩)
        simp [htrue, hraws, computedFrom_eq_readAll]

/-- A map of a dump: there is none, or its entries are read, or a value that is no
map. -/
theorem section_cases (part : Section) (members : List (String × Json)) :
    (section? part members = .ok [] ∧
      ∀ v, members.lookup (sectionKey part) = some v → v.isTrue = false) ∨
    (∃ found, section? part members = entries part [] found ∧
      members.lookup (sectionKey part) = some (.obj found)) ∨
    (∃ v, section? part members = .error .missingAttribute ∧
      members.lookup (sectionKey part) = some v ∧ v.isTrue = true ∧ ∀ found, v ≠ .obj found) := by
  unfold section? Json.member Json.orElse
  cases members.lookup (sectionKey part) with
  | none => exact .inl ⟨rfl, nofun⟩
  | some v =>
    cases htrue : v.isTrue with
    | false =>
      refine .inl ⟨by simp [htrue, entries], ?_⟩
      rintro _ ⟨⟩
      exact htrue
    | true =>
      cases v with
      | obj found => exact .inr (.inl ⟨found, by simp [htrue], rfl⟩)
      | _ => exact .inr (.inr ⟨_, by simp [htrue], rfl, htrue, nofun⟩)

end Dump
end ContentDecl
