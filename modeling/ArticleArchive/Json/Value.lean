import ArticleArchive.Number.Binary64
import ArticleArchive.Text.Basic

namespace ArticleArchive

inductive Json where
  | null
  | bool (b : Bool)
  | int (i : Int)
  | float (x : Binary64)
  | str (t : Text)
  | arr (items : List Json)
  | obj (fields : List (Text × Json))

namespace Json

def field? (name : Text) (fields : List (Text × Json)) : Option Json :=
  fields.lookup name

def fieldOrNull (name : Text) (fields : List (Text × Json)) : Json :=
  (field? name fields).getD .null

/-- The fields with one set: a name that is there keeps its place. -/
def setField (name : Text) (v : Json) : List (Text × Json) → List (Text × Json)
  | [] => [(name, v)]
  | (n, w) :: fields => if n = name then (name, v) :: fields else (n, w) :: setField name v fields

def ofFields (fields : List (String × Json)) : Json :=
  .obj (fields.map fun f => (f.1.toList, f.2))

/-- Null, false, zero, and the empty text, list and object: values that count as not given. -/
def isVoid : Json → Bool
  | null => true
  | bool b => !b
  | int i => i == 0
  | float x => x.isZero
  | str t => t.isEmpty
  | arr items => items.isEmpty
  | obj fields => fields.isEmpty

/-- Whether the value can be a key: lists and objects cannot. -/
def isScalar : Json → Bool
  | arr _ => false
  | obj _ => false
  | _ => true

mutual

/-- Whether no number in a value is infinite or no number. -/
def isFinite : Json → Bool
  | float x => x.isFinite
  | arr items => areFinite items
  | obj fields => haveFinite fields
  | _ => true

def areFinite : List Json → Bool
  | [] => true
  | v :: vs => isFinite v && areFinite vs

def haveFinite : List (Text × Json) → Bool
  | [] => true
  | (_, v) :: fields => isFinite v && haveFinite fields

end

def asInteger? : Json → Option Int
  | bool b => some (if b then 1 else 0)
  | int i => some i
  | float x => x.integer?
  | _ => none

/-- Whether two values are one key: texts by their characters, numbers and truth values by what
they count as. -/
def sameKey (a b : Json) : Bool :=
  match a, b with
  | str s, str t => s == t
  | null, null => true
  | float x, float y => x.sameValue y
  | a, b =>
    match a.asInteger?, b.asInteger? with
    | some i, some j => i == j
    | _, _ => false

end Json

end ArticleArchive
