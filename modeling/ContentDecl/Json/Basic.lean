/-
# Values of a schema dump

A dump is JSON in which a number written without point and exponent is an
integer of any size and every other number is a floating-point number, so that
`1` and `1.0` are two values. The members of an object keep their order.

A model built by hand may have a node in the place of a name or of another
value. There it is a record: its class and its attributes in their order, and
nothing that a dump could hold.

A value that stands where a setting is expected is read by its truth: null,
false, zero, and an empty text, array or object count as absent.

Key definitions: `Json`, `Json.isTrue`, `Json.isKey`, `Json.elements?`,
`Json.text`.
-/
import ContentDecl.Binary64.Shortest
import ContentDecl.Text.Quoted

namespace ContentDecl

/-- A value of a dump. -/
inductive Json where
  | null
  | bool (b : Bool)
  | int (n : Int)
  | float (x : Binary64)
  | str (s : String)
  | arr (elements : List Json)
  | obj (members : List (String × Json))
  | record (className : String) (attributes : List (String × Json))
  deriving Repr, Inhabited

namespace Json

/-- Whether a value counts as present where a setting is expected. -/
def isTrue : Json → Bool
  | null => false
  | bool b => b
  | int n => n != 0
  | float x => !x.isZero
  | str s => !s.isEmpty
  | arr elements => !elements.isEmpty
  | obj members => !members.isEmpty
  | record _ _ => true

/-- The value itself if it counts as present, else the other one. -/
def orElse (v w : Json) : Json := if v.isTrue then v else w

def isText : Json → Bool
  | str _ => true
  | _ => false

/-- Whether a value can name an entry of a table: arrays, objects and records
cannot. -/
def isKey : Json → Bool
  | arr _ => false
  | obj _ => false
  | record _ _ => false
  | _ => true

/-- The member of that name, or null. -/
def member (members : List (String × Json)) (name : String) : Json :=
  (members.lookup name).getD null

/-- What a value consists of: the elements of an array, the characters of a
text, the names of an object's members. Nothing else has elements. -/
def elements? : Json → Option (List Json)
  | arr elements => some elements
  | str s => some (s.toList.map fun c => str (String.singleton c))
  | obj members => some (members.map fun entry => str entry.1)
  | _ => none

/-- The word for a value's kind in messages. -/
def kindName : Json → String
  | null => "NoneType"
  | bool _ => "bool"
  | int _ => "int"
  | float _ => "float"
  | str _ => "str"
  | arr _ => "list"
  | obj _ => "dict"
  | record className _ => className

def braced (opening : String) (parts : List String) (closing : String) : String :=
  opening ++ String.intercalate ", " parts ++ closing

mutual

/-- The text of a value inside an array or object: texts are quoted there. -/
def inner : Json → String
  | null => "None"
  | bool b => if b then "True" else "False"
  | int n => toString n
  | float x => x.text
  | str s => Text.quoted s
  | arr elements => braced "[" (innerAll elements) "]"
  | obj members => braced "\x7b" (innerMembers members) "\x7d"
  | record className attributes => braced (className ++ "(") (innerAttributes attributes) ")"

def innerAll : List Json → List String
  | [] => []
  | v :: vs => v.inner :: innerAll vs

def innerMembers : List (String × Json) → List String
  | [] => []
  | (name, v) :: rest => (Text.quoted name ++ ": " ++ v.inner) :: innerMembers rest

def innerAttributes : List (String × Json) → List String
  | [] => []
  | (name, v) :: rest => (name ++ "=" ++ v.inner) :: innerAttributes rest

end

/-- The text of a value where it is printed: a text as it is. -/
def text : Json → String
  | str s => s
  | v => v.inner

end Json
end ContentDecl
