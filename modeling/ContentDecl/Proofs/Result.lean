/-
# Results of computations that may stop

Two computations one after the other give a value if both do, and stop with a
fault of the first or of the second. `FailsOnly p r` says that every fault of a
result satisfies `p`; it is put together along the steps of a computation, and so is
`Yields p q r`, which also says `q` of a value. `Follows R r s` relates the values of two
computations that are put together alike.

Key definitions: `FailsOnly`, `Yields`, `Follows`, `Outcome`.
Key theorems: `bind_eq_ok`, `bind_eq_error`, `FailsOnly.bind`, `Yields.bind`.
-/
import ContentDecl.Fault
import Mathlib.Data.List.Forall2

namespace ContentDecl
namespace Result

variable {ε α β : Type}

@[simp] theorem ok_bind (a : α) (f : α → Except ε β) : (Except.ok a >>= f) = f a := rfl

@[simp] theorem error_bind (e : ε) (f : α → Except ε β) :
    (Except.error e >>= f) = .error e := rfl

@[simp] theorem map_ok (f : α → β) (a : α) : (f <$> (Except.ok a : Except ε α)) = .ok (f a) := rfl

@[simp] theorem map_error (f : α → β) (e : ε) :
    (f <$> (Except.error e : Except ε α)) = .error e := rfl

theorem pure_eq_ok {a b : α} : (pure a : Except ε α) = .ok b ↔ a = b := by
  simp [pure, Except.pure]

theorem bind_eq_ok {x : Except ε α} {f : α → Except ε β} {b : β} :
    (x >>= f) = .ok b ↔ ∃ a, x = .ok a ∧ f a = .ok b := by
  cases x <;> simp

theorem bind_eq_error {x : Except ε α} {f : α → Except ε β} {e : ε} :
    (x >>= f) = .error e ↔ x = .error e ∨ ∃ a, x = .ok a ∧ f a = .error e := by
  cases x <;> simp

theorem map_eq_ok {x : Except ε α} {f : α → β} {b : β} :
    (f <$> x) = .ok b ↔ ∃ a, x = .ok a ∧ f a = b := by
  cases x <;> simp

theorem exists_map_eq_ok {x : Except ε α} {f : α → β} :
    (∃ b, f <$> x = .ok b) ↔ ∃ a, x = .ok a := by
  cases x <;> simp

theorem exists_bind_eq_ok {x : Except ε α} {f : α → Except ε β} :
    (∃ b, (x >>= f) = .ok b) ↔ ∃ a, x = .ok a ∧ ∃ b, f a = .ok b := by
  cases x <;> simp

theorem map_eq_error {x : Except ε α} {f : α → β} {e : ε} :
    (f <$> x) = .error e ↔ x = .error e := by
  cases x <;> simp

/-! ### Computations along a list -/

theorem mapM_cons_eq_ok {f : α → Except ε β} {a : α} {as : List α} {bs : List β} :
    (a :: as).mapM f = .ok bs ↔
      ∃ b, f a = .ok b ∧ ∃ rest, as.mapM f = .ok rest ∧ b :: rest = bs := by
  rw [List.mapM_cons]
  simp only [bind_eq_ok, pure_eq_ok]

/-- Each element has its result. -/
theorem exists_mem_of_mapM {f : α → Except ε β} : ∀ {as : List α} {bs : List β},
    as.mapM f = .ok bs → ∀ a ∈ as, ∃ b ∈ bs, f a = .ok b
  | [], _, _ => nofun
  | a :: as, bs, h => by
    obtain ⟨b, hb, rest, hrest, rfl⟩ := mapM_cons_eq_ok.mp h
    intro c hmem
    rcases List.mem_cons.mp hmem with rfl | hmem
    · exact ⟨b, List.mem_cons_self, hb⟩
    · obtain ⟨d, hd, hc⟩ := exists_mem_of_mapM hrest c hmem
      exact ⟨d, List.mem_cons_of_mem _ hd, hc⟩

/-- Each result is one of an element. -/
theorem exists_of_mem_mapM {f : α → Except ε β} : ∀ {as : List α} {bs : List β},
    as.mapM f = .ok bs → ∀ b ∈ bs, ∃ a ∈ as, f a = .ok b
  | [], bs, h => by
    obtain rfl := pure_eq_ok.mp h
    exact nofun
  | a :: as, bs, h => by
    obtain ⟨b, hb, rest, hrest, rfl⟩ := mapM_cons_eq_ok.mp h
    intro c hmem
    rcases List.mem_cons.mp hmem with rfl | hmem
    · exact ⟨a, List.mem_cons_self, hb⟩
    · obtain ⟨d, hd, hc⟩ := exists_of_mem_mapM hrest c hmem
      exact ⟨d, List.mem_cons_of_mem _ hd, hc⟩

theorem mapM_eq_ok_map {f : α → Except ε β} {g : α → β} : ∀ {as : List α},
    (∀ a ∈ as, f a = .ok (g a)) → as.mapM f = .ok (as.map g)
  | [], _ => rfl
  | a :: as, h => by
    have hrest : as.mapM f = .ok (as.map g) :=
      mapM_eq_ok_map fun b hmem => h b (List.mem_cons_of_mem _ hmem)
    rw [List.mapM_cons, h a List.mem_cons_self, hrest]
    rfl

theorem mapM_congr {f g : α → Except ε β} : ∀ {as : List α},
    (∀ a ∈ as, f a = g a) → as.mapM f = as.mapM g
  | [], _ => rfl
  | a :: as, h => by
    have hrest : as.mapM f = as.mapM g := mapM_congr fun b hmem => h b (List.mem_cons_of_mem _ hmem)
    rw [List.mapM_cons, List.mapM_cons, h a List.mem_cons_self, hrest]

theorem exists_mapM {f : α → Except ε β} : ∀ {as : List α},
    (∀ a ∈ as, ∃ b, f a = .ok b) → ∃ bs, as.mapM f = .ok bs
  | [], _ => ⟨[], rfl⟩
  | a :: as, h => by
    obtain ⟨b, hb⟩ := h a List.mem_cons_self
    obtain ⟨bs, hbs⟩ := exists_mapM fun c hmem => h c (List.mem_cons_of_mem _ hmem)
    exact ⟨b :: bs, mapM_cons_eq_ok.mpr ⟨b, hb, bs, hbs, rfl⟩⟩

/-- Results that are changed each by itself can be changed afterwards. -/
theorem mapM_map {γ : Type} (f : α → Except ε β) (g : β → γ) : ∀ as : List α,
    (as.mapM fun a => g <$> f a) = List.map g <$> as.mapM f
  | [] => rfl
  | a :: as => by
    rw [List.mapM_cons, List.mapM_cons, mapM_map f g as]
    cases f a with
    | error e => rfl
    | ok b => cases as.mapM f <;> rfl

/-- Results that keep their element can be put together with it afterwards. -/
theorem mapM_map_zipWith {γ : Type} (f : α → Except ε β) (g : α → β → γ) : ∀ as : List α,
    (as.mapM fun a => g a <$> f a) = (fun bs => List.zipWith g as bs) <$> as.mapM f
  | [] => rfl
  | a :: as => by
    rw [List.mapM_cons, List.mapM_cons, mapM_map_zipWith f g as]
    cases f a with
    | error e => rfl
    | ok b => cases as.mapM f <;> rfl

/-- The results are those of the elements, one by one. -/
theorem mapM_eq_ok_iff {f : α → Except ε β} : ∀ {as : List α} {bs : List β},
    as.mapM f = .ok bs ↔ List.Forall₂ (fun a b => f a = .ok b) as bs
  | [], bs => by
    rw [List.forall₂_nil_left_iff, List.mapM_nil, pure_eq_ok, eq_comm]
  | a :: as, bs => by
    rw [List.forall₂_cons_left_iff, mapM_cons_eq_ok]
    constructor
    · rintro ⟨b, hb, rest, hrest, rfl⟩
      exact ⟨b, rest, hb, mapM_eq_ok_iff.mp hrest, rfl⟩
    · rintro ⟨b, rest, hb, hrest, rfl⟩
      exact ⟨b, hb, rest, mapM_eq_ok_iff.mpr hrest, rfl⟩

/-- If something is known of each result, it is known of all of them, element by element. -/
theorem map_eq_map_of_mapM {γ : Type} {f : α → Except ε β} {g : β → γ} {k : α → γ} :
    ∀ {as : List α} {bs : List β}, as.mapM f = .ok bs →
      (∀ a ∈ as, ∀ b, f a = .ok b → g b = k a) → bs.map g = as.map k
  | [], _, h, _ => by
    obtain rfl := pure_eq_ok.mp h
    rfl
  | a :: as, _, h, hg => by
    obtain ⟨b, hb, rest, hrest, rfl⟩ := mapM_cons_eq_ok.mp h
    have hhead : g b = k a := hg a List.mem_cons_self b hb
    have htail : rest.map g = as.map k :=
      map_eq_map_of_mapM hrest fun c hmem => hg c (List.mem_cons_of_mem a hmem)
    rw [List.map_cons, List.map_cons, hhead, htail]

/-! ### Faults of a kind -/

/-- Every fault of the result satisfies the predicate. -/
def FailsOnly (p : ε → Prop) (x : Except ε α) : Prop := ∀ e, x = .error e → p e

namespace FailsOnly

variable {p : ε → Prop}

theorem ok (a : α) : FailsOnly p (.ok a) := nofun

theorem error {e : ε} (h : p e) : FailsOnly p (.error e : Except ε α) := by
  rintro _ ⟨⟩
  exact h

theorem bind {x : Except ε α} {f : α → Except ε β} (hx : FailsOnly p x)
    (hf : ∀ a, x = .ok a → FailsOnly p (f a)) : FailsOnly p (x >>= f) := by
  intro e he
  obtain he | ⟨a, ha, he⟩ := bind_eq_error.mp he
  · exact hx e he
  · exact hf a ha e he

theorem map {x : Except ε α} (f : α → β) (hx : FailsOnly p x) : FailsOnly p (f <$> x) :=
  fun e he => hx e (map_eq_error.mp he)

theorem mapM {f : α → Except ε β} : ∀ {as : List α}, (∀ a ∈ as, FailsOnly p (f a)) →
    FailsOnly p (as.mapM f)
  | [], _ => ok []
  | a :: as, h => by
    rw [List.mapM_cons]
    refine bind (h a List.mem_cons_self) fun b _ => ?_
    exact bind (mapM fun a hmem => h a (List.mem_cons_of_mem _ hmem)) fun bs _ => ok (b :: bs)

end FailsOnly

/-! ### Values and faults of a kind -/

/-- The result is a value of one kind or a fault of another. -/
def Yields (p : ε → Prop) (q : α → Prop) : Except ε α → Prop
  | .ok a => q a
  | .error e => p e

namespace Yields

variable {p : ε → Prop} {q : α → Prop} {r : β → Prop} {x : Except ε α}

theorem failsOnly (h : Yields p q x) : FailsOnly p x := by
  rintro e rfl
  exact h

theorem of_ok {a : α} (h : Yields p q x) (hx : x = .ok a) : q a := by
  subst hx
  exact h

theorem imp {q' : α → Prop} (h : Yields p q x) (hq : ∀ a, q a → q' a) : Yields p q' x := by
  cases x with
  | ok a => exact hq a h
  | error e => exact h

theorem bind {f : α → Except ε β} (h : Yields p q x) (hf : ∀ a, q a → Yields p r (f a)) :
    Yields p r (x >>= f) := by
  cases x with
  | ok a => exact hf a h
  | error e => exact h

theorem map {f : α → β} (h : Yields p q x) (hf : ∀ a, q a → r (f a)) : Yields p r (f <$> x) := by
  cases x with
  | ok a => exact hf a h
  | error e => exact h

end Yields

/-! ### Two computations side by side -/

/-- Where the first computation gives a value, the second one gives a related value. -/
def Follows (R : α → β → Prop) (x : Except ε α) (y : Except ε β) : Prop :=
  ∀ a, x = .ok a → ∃ b, y = .ok b ∧ R a b

namespace Follows

variable {γ δ : Type} {R : α → β → Prop} {S : γ → δ → Prop} {x : Except ε α} {y : Except ε β}

theorem ok {a : α} {b : β} (h : R a b) : Follows R (.ok a : Except ε α) (.ok b) := by
  rintro _ ⟨⟩
  exact ⟨b, rfl, h⟩

theorem error (e : ε) (y : Except ε β) : Follows R (.error e) y := nofun

/-- The same computation twice. -/
theorem same {R : α → α → Prop} (h : ∀ a, x = .ok a → R a a) : Follows R x x :=
  fun a ha => ⟨a, ha, h a ha⟩

theorem bind {f : α → Except ε γ} {g : β → Except ε δ} (h : Follows R x y)
    (hf : ∀ a b, R a b → Follows S (f a) (g b)) : Follows S (x >>= f) (y >>= g) := by
  intro c hc
  obtain ⟨a, ha, hc⟩ := bind_eq_ok.mp hc
  obtain ⟨b, rfl, hab⟩ := h a ha
  exact hf a b hab c hc

theorem map {f : α → γ} {g : β → δ} (h : Follows R x y) (hf : ∀ a b, R a b → S (f a) (g b)) :
    Follows S (f <$> x) (g <$> y) := by
  intro c hc
  obtain ⟨a, ha, rfl⟩ := map_eq_ok.mp hc
  obtain ⟨b, rfl, hab⟩ := h a ha
  exact ⟨g b, rfl, hf a b hab⟩

/-- Along two lists, step by step. -/
theorem mapM {f : γ → Except ε α} {g : δ → Except ε β} {cs : List γ} {ds : List δ}
    (h : List.Forall₂ (fun c d => Follows R (f c) (g d)) cs ds) :
    Follows (List.Forall₂ R) (cs.mapM f) (ds.mapM g) := by
  induction h with
  | nil => exact ok .nil
  | cons hone _ ih =>
    rw [List.mapM_cons, List.mapM_cons]
    exact hone.bind fun a b hab => ih.bind fun as bs hrest => ok (.cons hab hrest)

end Follows

/-! ### Results that are known in advance -/

theorem findSome?_cons_or (g : α → Option β) (a : α) (as : List α) :
    (a :: as).findSome? g = (g a).or (as.findSome? g) := by
  rw [List.findSome?_cons]
  cases g a <;> rfl

/-- The result of a computation by the fault it is known to stop with, if any: this
fault, or else a value of a kind. -/
def Outcome (p : α → Prop) (x : Except ε α) : Option ε → Prop
  | none => ∃ a, x = .ok a ∧ p a
  | some e => x = .error e

namespace Outcome

variable {p : α → Prop} {q : β → Prop} {x : Except ε α} {e? : Option ε}

theorem imp {r : α → Prop} (h : Outcome p x e?) (hr : ∀ a, p a → r a) : Outcome r x e? := by
  cases e? with
  | none =>
    obtain ⟨a, rfl, ha⟩ := h
    exact ⟨a, rfl, hr a ha⟩
  | some e => exact h

theorem map {f : α → β} (h : Outcome p x e?) (hf : ∀ a, p a → q (f a)) :
    Outcome q (f <$> x) e? := by
  cases e? with
  | none =>
    obtain ⟨a, rfl, ha⟩ := h
    exact ⟨f a, rfl, hf a ha⟩
  | some e =>
    rw [show x = .error e from h]
    rfl

/-- Of two computations one after the other, the fault of the first one goes first. -/
theorem bind {f : α → Except ε β} {e'? : Option ε} (h : Outcome p x e?)
    (hf : ∀ a, p a → Outcome q (f a) e'?) : Outcome q (x >>= f) (e?.or e'?) := by
  cases e? with
  | none =>
    obtain ⟨a, rfl, ha⟩ := h
    exact hf a ha
  | some e =>
    rw [show x = .error e from h]
    rfl

/-- Along a list, the first fault stops the computation. -/
theorem mapM {f : α → Except ε β} {g : α → Option ε} : ∀ {as : List α},
    (∀ a ∈ as, Outcome q (f a) (g a)) →
    Outcome (fun bs => ∀ b ∈ bs, q b) (as.mapM f) (as.findSome? g)
  | [], _ => ⟨[], rfl, nofun⟩
  | a :: as, h => by
    have hrest : Outcome (fun bs => ∀ b ∈ bs, q b) (as.mapM f) (as.findSome? g) :=
      mapM fun a hmem => h a (List.mem_cons_of_mem _ hmem)
    have hall : Outcome (fun bs => ∀ b ∈ bs, q b) ((a :: as).mapM f)
        ((g a).or ((as.findSome? g).or none)) := by
      rw [List.mapM_cons]
      refine (h a List.mem_cons_self).bind fun b hb => hrest.bind fun bs hbs => ?_
      exact ⟨b :: bs, rfl, List.forall_mem_cons.mpr ⟨hb, hbs⟩⟩
    rwa [Option.or_none, ← findSome?_cons_or] at hall

end Outcome

end Result
end ContentDecl
