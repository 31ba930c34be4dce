import ArticleArchive.Log
import ArticleArchive.Json.Reader
import ArticleArchive.Json.Shown
import ArticleArchive.Text.Utf8

namespace ArticleArchive

inductive SourceError where
  | undecodable
  | malformed
  | longNumeral
  deriving DecidableEq, Repr

/-- One thing that comes out of a file: a row, or a report on something that is no row. -/
inductive SourceItem where
  | row (fields : List (Text × Json))
  | note (record : LogRecord)

/-- What comes out of a file, in order, and why it ends if not because the file does. In a file of
lines a bad line is reported and passed over; a list that cannot be read spoils the whole file. -/
structure Source where
  items : List SourceItem
  error : Option SourceError

namespace Source

/-- Every line end is U+000A. -/
def unixLines : Text → Text
  | [] => []
  | '\r' :: '\n' :: cs => '\n' :: unixLines cs
  | '\r' :: cs => '\n' :: unixLines cs
  | c :: cs => c :: unixLines cs

/-- The lines of a text; nothing follows the last U+000A. -/
def lines : Text → List Text
  | [] => []
  | c :: cs =>
    if c = '\n' then [] :: lines cs
    else match lines cs with
      | [] => [[c]]
      | l :: ls => (c :: l) :: ls

def itemNote : LogRecord :=
  .warning "Item in JSON file is not an object, skipping".toList

def invalidLineNote (number : Nat) : LogRecord :=
  .warning ("Skipping invalid JSON line ".toList ++ Nat.toDigits 10 number)

def otherLineNote (number : Nat) : LogRecord :=
  .warning ("Line ".toList ++ Nat.toDigits 10 number ++ " is not an object, skipping".toList)

def ofItem (v : Json) : SourceItem :=
  match v with
  | .obj fields => .row fields
  | _ => .note itemNote

def ofList (t : Text) : Source :=
  match Json.parse t with
  | .ok (.arr items) => ⟨items.map ofItem, none⟩
  | .ok _ => ⟨[], none⟩
  | .error .malformed => ⟨[], some .malformed⟩
  | .error .longNumeral => ⟨[], some .longNumeral⟩

def ofLine (number : Nat) (line : Text) : Except SourceError (List SourceItem) :=
  let t := Text.strip line
  if t.isEmpty then .ok []
  else match Json.parse t with
    | .ok (.obj fields) => .ok [.row fields]
    | .ok _ => .ok [.note (otherLineNote number)]
    | .error .malformed => .ok [.note (invalidLineNote number)]
    | .error .longNumeral => .error .longNumeral

def ofLines (number : Nat) : List Text → Source
  | [] => ⟨[], none⟩
  | l :: ls =>
    match ofLine number l with
    | .error e => ⟨[], some e⟩
    | .ok items =>
      let rest := ofLines (number + 1) ls
      ⟨items ++ rest.items, rest.error⟩

def ofText (t : Text) : Source :=
  match t with
  | '[' :: _ => ofList t
  | _ => ofLines 1 (lines t)

/-- The lines of a text that are known to end: those up to the last U+000A, where a U+000D at the
end of the text may still be the first half of a line end. -/
def endedLines (t : Text) : List Text :=
  let t := if t.getLast? = some '\r' then t.dropLast else t
  lines ((unixLines t).reverse.dropWhile (· ≠ '\n')).reverse

def blockSize : Nat := 8192

/-- The bytes that are decoded before a byte is looked at. -/
def decodedBefore (bytes : List Nat) (index : Nat) : List Nat :=
  if index < bytes.length then bytes.take (index / blockSize * blockSize) else bytes

/-- The rows of a file. A file of lines gives the rows that end before the block in which decoding
fails; the end of the file, where a character may be cut off, lies after all blocks. -/
def ofBytes (bytes : List Nat) : Source :=
  let decoded := Text.decodeUtf8 bytes
  match decoded.stuck with
  | none => ofText (unixLines decoded.chars)
  | some index =>
    match (Text.decodeUtf8 (decodedBefore bytes index)).chars with
    | '[' :: _ => ⟨[], some .undecodable⟩
    | t =>
      let read := ofLines 1 (endedLines t)
      ⟨read.items, some (read.error.getD .undecodable)⟩

def ofContent (content : Text) : Source :=
  ofText (unixLines content)

end Source

end ArticleArchive
