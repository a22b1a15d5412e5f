/-
# Equality and order of values

Truth values, integers and floating-point numbers are compared by their exact
numeric value, so `1`, `1.0` and `true` are one key of a table and `10 ^ 30` is
not the floating-point number nearest to it. Arrays and objects are compared by
their parts, objects regardless of the order of their members, and records by
their class and their attributes.

All not-a-numbers of a dump are one object: as a key, or as a part of an array
or object, a not-a-number `agrees` with itself, although as a number it equals
nothing (`equals`).

Texts are ordered by code points, numbers by value, and arrays by their first
parts that disagree. No other two values have an order.

Key definitions: `Json.agrees`, `Json.equals`, `Json.less?`.
-/
import ContentDecl.Json.Basic

namespace ContentDecl

/-- A number as far as comparisons go. -/
inductive Magnitude where
  | undefined
  | bottom
  | exact (value : Dyadic)
  | top

namespace Magnitude

/-- The same number, or both undefined. -/
def agrees : Magnitude → Magnitude → Bool
  | undefined, undefined => true
  | bottom, bottom => true
  | exact x, exact y => x == y
  | top, top => true
  | _, _ => false

/-- Strictly smaller; nothing is smaller or larger than the undefined. -/
def less : Magnitude → Magnitude → Bool
  | undefined, _ => false
  | _, undefined => false
  | bottom, bottom => false
  | bottom, _ => true
  | exact _, bottom => false
  | exact x, exact y => x < y
  | exact _, top => true
  | top, _ => false

end Magnitude

/-- The number a floating-point number stands for. -/
def Binary64.magnitude : Binary64 → Magnitude
  | nan => .undefined
  | infinite negative => if negative then .bottom else .top
  | x => match x.value? with
    | some value => .exact value
    | none => .undefined

namespace Json

/-- The number a value stands for; truth values are zero and one. -/
def magnitude? : Json → Option Magnitude
  | bool b => some (.exact (if b then 1 else 0))
  | int n => some (.exact (.ofIntWithPrec n 0))
  | float x => some x.magnitude
  | _ => none

mutual

/-- Whether two values are the same key or the same part. -/
def agrees : Json → Json → Bool
  | null, null => true
  | str s, str t => s == t
  | arr vs, arr ws => agreeAll vs ws
  | obj ms, obj ns => ms.length == ns.length && agreeMembers ms ns
  | record c ms, record d ns => c == d && agreeAttributes ms ns
  | v, w => match v.magnitude?, w.magnitude? with
    | some x, some y => x.agrees y
    | _, _ => false

def agreeAll : List Json → List Json → Bool
  | [], [] => true
  | v :: vs, w :: ws => agrees v w && agreeAll vs ws
  | _, _ => false

/-- Whether each member has a partner of the same name that agrees with it. -/
def agreeMembers : List (String × Json) → List (String × Json) → Bool
  | [], _ => true
  | (name, v) :: ms, ns =>
    (match ns.lookup name with
      | some w => agrees v w
      | none => false) && agreeMembers ms ns

/-- Whether attributes of the same names agree, one by one. -/
def agreeAttributes : List (String × Json) → List (String × Json) → Bool
  | [], [] => true
  | (name, v) :: ms, (other, w) :: ns => name == other && agrees v w && agreeAttributes ms ns
  | _, _ => false

end

def isNaN : Json → Bool
  | float x => x.isNaN
  | _ => false

/-- Whether two values are equal: they agree, and are not the number that
equals nothing. -/
def equals (v w : Json) : Bool := !v.isNaN && agrees v w

mutual

/-- Whether the first value comes strictly before the second, if the two have
an order. -/
def less? : Json → Json → Option Bool
  | str s, str t => some (decide (s < t))
  | arr vs, arr ws => lessAll? vs ws
  | v, w => match v.magnitude?, w.magnitude? with
    | some x, some y => some (x.less y)
    | _, _ => none

/-- The first parts that disagree decide, else the lengths. -/
def lessAll? : List Json → List Json → Option Bool
  | [], ws => some (!ws.isEmpty)
  | _ :: _, [] => some false
  | v :: vs, w :: ws => if agrees v w then lessAll? vs ws else less? v w

end

/-- Whether a text has a passage. -/
def hasPassage (passage : List Char) : List Char → Bool
  | [] => passage.isEmpty
  | c :: cs => passage.isPrefixOf (c :: cs) || hasPassage passage cs

/-- Whether a value is found in a container: a member's name in an object, an
equal element in an array, a passage in a text. Nothing else contains
anything. -/
def contains? (container : Json) (name : String) : Option Bool :=
  match container with
  | obj members => some (members.lookup name).isSome
  | arr elements => some (elements.any fun v => v.equals (str name))
  | str s => some (hasPassage name.toList s.toList)
  | _ => none

end Json
end ContentDecl
