import ArticleArchive.Json.Value
import ArticleArchive.Text.Numeral

namespace ArticleArchive

/-- A step on the way to a value: a field name, or a key that is a number. -/
inductive PathPart where
  | name (t : Text)
  | number (i : Int)
  deriving DecidableEq, Repr

inductive Mismatch where
  | missing
  | intType
  | intParsing
  | intParsingSize
  | intFromFloat
  | finiteNumber
  | greaterThanEqual
  | lessThanEqual
  | stringType
  | stringTooShort
  | stringTooLong
  | boolParsing
  | objectType
  | dictType
  | dateTimeType
  | dateTimeParsing
  | dateTimeFromDate
  deriving DecidableEq, Repr

namespace Mismatch

def text : Mismatch → Text
  | missing => "missing".toList
  | intType => "int_type".toList
  | intParsing => "int_parsing".toList
  | intParsingSize => "int_parsing_size".toList
  | intFromFloat => "int_from_float".toList
  | finiteNumber => "finite_number".toList
  | greaterThanEqual => "greater_than_equal".toList
  | lessThanEqual => "less_than_equal".toList
  | stringType => "string_type".toList
  | stringTooShort => "string_too_short".toList
  | stringTooLong => "string_too_long".toList
  | boolParsing => "bool_parsing".toList
  | objectType => "model_attributes_type".toList
  | dictType => "dict_type".toList
  | dateTimeType => "datetime_type".toList
  | dateTimeParsing => "datetime_parsing".toList
  | dateTimeFromDate => "datetime_from_date_parsing".toList

end Mismatch

/-- A value that does not fit, with its place; an object stands for the field that it lacks. -/
structure ShapeError where
  path : List PathPart
  mismatch : Mismatch
  input : Json

namespace PathPart

def toJson : PathPart → Json
  | name t => .str t
  | number i => .int i

end PathPart

namespace ShapeError

def toJson (e : ShapeError) : Json :=
  .ofFields [("loc", .arr (e.path.map PathPart.toJson)), ("type", .str e.mismatch.text)]

end ShapeError

/-- What is read from one value, or why it does not fit. -/
abbrev Reading (α : Type) := Except Mismatch α

/-- A value of the declared shape, or all mismatches. -/
abbrev Checked (α : Type) := Except (List ShapeError) α

namespace Reading

def require {α : Type} (test : α → Bool) (m : Mismatch) (x : Reading α) : Reading α :=
  x.bind fun v => if test v then .ok v else .error m

def atLeast (low : Int) (x : Reading Int) : Reading Int :=
  x.require (fun i => low ≤ i) .greaterThanEqual

def atMost (high : Int) (x : Reading Int) : Reading Int :=
  x.require (fun i => i ≤ high) .lessThanEqual

def longerThanNone (x : Reading Text) : Reading Text :=
  x.require (fun t => !t.isEmpty) .stringTooShort

def upToLength (n : Nat) (x : Reading Text) : Reading Text :=
  x.require (fun t => t.length ≤ n) .stringTooLong

def checked {α : Type} (v : Json) (x : Reading α) : Checked α :=
  x.mapError fun m => [⟨[], m, v⟩]

end Reading

namespace Checked

/-- Applies a function to a value; the mismatches of both are reported. -/
def apply {α β : Type} (f : Checked (α → β)) (x : Checked α) : Checked β :=
  match f, x with
  | .ok f, .ok x => .ok (f x)
  | .ok _, .error es => .error es
  | .error es, .ok _ => .error es
  | .error es, .error fs => .error (es ++ fs)

def under {α : Type} (p : PathPart) (x : Checked α) : Checked α :=
  x.mapError fun es => es.map fun e => { e with path := p :: e.path }

def fail {α : Type} (m : Mismatch) (v : Json) : Checked α :=
  .error [⟨[], m, v⟩]

def all {α β : Type} (check : α → Checked β) : List α → Checked (List β)
  | [] => .ok []
  | v :: vs => apply (apply (.ok List.cons) (check v)) (all check vs)

end Checked

namespace Shape

def text (v : Json) : Reading Text :=
  match v with
  | .str t => .ok t
  | _ => .error .stringType

/-- Reads an integer in the digits 0 to 9, with a minus sign if it is below zero and with no zero in
front of other digits. -/
def numeral (t : Text) : Reading Int :=
  let negative := t.head? == some '-'
  let ds := if negative then t.drop 1 else t
  let read (n : Nat) : Int := if negative then -n else n
  if ds = ['0'] then .ok 0
  else if ds.isEmpty || ds.head? == some '0' then .error .intParsing
  else if Text.maxDigits < (t.length - ds.length) + (ds.takeWhile Char.isDigit).length then
    .error .intParsingSize
  else (Text.asciiNumber? ds).elim (.error .intParsing) fun n => .ok (read n)

/-- The text without zeros at its beginning and underscores among them; one zero is kept where no
other digit follows. -/
def withoutLeadingZeros (t : Text) : Text :=
  let zeros := t.takeWhile fun c => c == '0' || c == '_'
  let kept := zeros.drop (zeros.length - 1)
  match t.drop zeros.length with
  | [] => kept
  | '.' :: fraction => kept ++ '.' :: fraction
  | rest => rest

/-- The text without a point and zeros at its end. -/
def withoutZeroFraction (t : Text) : Text :=
  match t.dropWhile (· ≠ '.') with
  | '.' :: zeros => if zeros.all (· = '0') then t.takeWhile (· ≠ '.') else t
  | _ => t

/-- The text without underscores, if they stand one by one inside it. -/
def withoutUnderscores (t : Text) : Text :=
  let doubled := (t.zip (t.drop 1)).any fun p => p.1 == '_' && p.2 == '_'
  if t.head? = some '_' ∨ t.getLast? = some '_' ∨ doubled then t else t.filter (· ≠ '_')

/-- What is left of a numeral when all is taken away that may be added to it. -/
def cleaned? (t : Text) : Option Text :=
  let tidy (t : Text) : Text := withoutUnderscores (withoutZeroFraction t)
  match t with
  | '+' :: '-' :: _ => none
  | '-' :: _ => some (tidy t)
  | '+' :: '0' :: ds => some (tidy (withoutLeadingZeros ('0' :: ds)))
  | '0' :: ds => some (tidy (withoutLeadingZeros ('0' :: ds)))
  | '+' :: d :: ds => if d.isDigit then some (tidy (d :: ds)) else none
  | d :: ds => if d.isDigit then some (tidy (d :: ds)) else none
  | [] => none

/-- The integer that a text spells, also with a plus sign, zeros in front, single underscores and a
fraction of zeros. -/
def integerText (t : Text) : Reading Int :=
  let t := Text.trimBy Text.isSpace t
  match numeral t, cleaned? t with
  | .error .intParsing, some u => numeral u
  | found, _ => found

def fitsWord (i : Int) : Bool :=
  -2 ^ (63 : Nat) < i && i < 2 ^ (63 : Nat)

/-- An integer, also in the form of a truth value, a floating-point number or a text. -/
def integer (v : Json) : Reading Int :=
  match v with
  | .bool b => .ok (if b then 1 else 0)
  | .int i => .ok i
  | .float x =>
    match x, x.integer? with
    | _, some i => if fitsWord i then .ok i else .error .intParsingSize
    | .finite _ _ _, none => .error .intFromFloat
    | _, none => .error .finiteNumber
  | .str t => integerText t
  | _ => .error .intType

def trueWords : List Text :=
  ["1".toList, "t".toList, "true".toList, "y".toList, "yes".toList, "on".toList]

def falseWords : List Text :=
  ["0".toList, "f".toList, "false".toList, "n".toList, "no".toList, "off".toList]

def truthText (t : Text) : Reading Bool :=
  let word := t.map Char.toLower
  if trueWords.contains word then .ok true
  else if falseWords.contains word then .ok false
  else .error .boolParsing

def leaf {α : Type} (read : Json → Reading α) (v : Json) : Checked α :=
  (read v).checked v

/-- The value of a field, checked; the field has to be there. -/
def required {α : Type} (name : Text) (check : Json → Checked α) (fields : List (Text × Json)) :
    Checked α :=
  Checked.under (.name name) <|
    match Json.field? name fields with
    | some v => check v
    | none => .fail .missing (.obj fields)

def optional {α : Type} (name : Text) (absent : α) (check : Json → Checked α)
    (fields : List (Text × Json)) : Checked α :=
  match Json.field? name fields with
  | some v => Checked.under (.name name) (check v)
  | none => .ok absent

def nullable {α : Type} (check : Json → Checked α) (v : Json) : Checked (Option α) :=
  match v with
  | .null => .ok none
  | v => (check v).map some

def object {α : Type} (check : List (Text × Json) → Checked α) (v : Json) : Checked α :=
  match v with
  | .obj fields => check fields
  | _ => .fail .objectType v

end Shape

end ArticleArchive
