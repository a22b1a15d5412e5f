/-
# Unions of texts

A value that lists texts is a union of these texts, or of their literals. A union
of expressions that the grammar takes as members of a union spells their types,
in their order.

Key theorems: `unionOf_texts`, `literalsOf_texts`, `alternatives_union`.
-/
import ContentDecl.Proofs.Result
import ContentDecl.Proofs.TypeExpr.Grammar
import Mathlib.Data.List.Forall2

namespace ContentDecl
namespace TypeScript

/-- The value that lists some texts. -/
def listing (texts : List String) : Json := .arr (texts.map .str)

theorem mapM_asText : ∀ texts : List String, (texts.map Json.str).mapM asText = .ok texts
  | [] => rfl
  | s :: texts => by
    rw [List.map_cons, List.mapM_cons, mapM_asText texts]
    rfl

theorem mapM_literalOf : ∀ texts : List String,
    (texts.map Json.str).mapM literalOf = .ok (texts.map literal)
  | [] => rfl
  | s :: texts => by
    rw [List.map_cons, List.mapM_cons, mapM_literalOf texts]
    rfl

theorem unionOf_texts (texts : List String) : unionOf (listing texts) = .ok (union texts) := by
  simp only [unionOf, textsOf, listing, Json.elements?, mapM_asText]
  rfl

theorem literalsOf_texts (texts : List String) :
    literalsOf (listing texts) = .ok (texts.map literal) := by
  simp only [literalsOf, listing, Json.elements?, mapM_literalOf]

theorem union_cons_cons (s t : String) (texts : List String) :
    (union (s :: t :: texts)).toList
      = s.toList ++ ' ' :: '|' :: ' ' :: (union (t :: texts)).toList := by
  rw [union, String.intercalate_cons_cons]
  simp [union]

/-- **A union spells its members**, if each of them is an expression that binds
tighter than a bar. -/
theorem alternatives_union : ∀ {texts : List String} {ts : List TypeExpr}, texts ≠ [] →
    List.Forall₂ (fun text t => Postfix text.toList t) texts ts →
    Alternatives (union texts).toList ts
  | [], _, hne, _ => absurd rfl hne
  | [s], [t], _, .cons h .nil => by
    rw [union, String.intercalate_singleton]
    exact .one h
  | s :: s' :: texts, t :: ts, _, .cons h hs => by
    rw [union_cons_cons]
    exact .more h (alternatives_union (by simp) hs)

theorem primary_literal (s : String) : Primary (literal s).toList (.literal s) := by
  rw [literal, String.toList_ofList]
  exact .literal (escaped_flatMap_escape s.toList)

end TypeScript
end ContentDecl
