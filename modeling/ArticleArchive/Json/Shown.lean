import ArticleArchive.Json.Value
import ArticleArchive.Number.Shortest
import ArticleArchive.Text.Numeral
import ArticleArchive.Text.Quoted

namespace ArticleArchive.Json

def digitsOf (i : Int) : Text :=
  if i < 0 then '-' :: Nat.toDigits 10 i.natAbs else Nat.toDigits 10 i.natAbs

/-- The parts with a comma and a space between neighbours. -/
def commaSeparated (parts : List Text) : Text :=
  [',', ' '].intercalate parts

mutual

def shown : Json → Text
  | null => "None".toList
  | bool true => "True".toList
  | bool false => "False".toList
  | int i => digitsOf i
  | float x => x.written
  | str t => t.quoted
  | arr items => '[' :: (commaSeparated (shownItems items) ++ [']'])
  | obj fields => '\x7b' :: (commaSeparated (shownFields fields) ++ ['\x7d'])

def shownItems : List Json → List Text
  | [] => []
  | v :: vs => shown v :: shownItems vs

def shownFields : List (Text × Json) → List Text
  | [] => []
  | (name, v) :: fields => (Text.quoted name ++ ':' :: ' ' :: shown v) :: shownFields fields

end

mutual

/-- Whether no integer in a value has more digits than a numeral may have. -/
def isShowable : Json → Bool
  | int i => i.natAbs < 10 ^ Text.maxDigits
  | arr items => areShowable items
  | obj fields => haveShowable fields
  | _ => true

def areShowable : List Json → Bool
  | [] => true
  | v :: vs => isShowable v && areShowable vs

def haveShowable : List (Text × Json) → Bool
  | [] => true
  | (_, v) :: fields => isShowable v && haveShowable fields

end

/-- A text as it is, any other value as it is shown. -/
def plain : Json → Text
  | str t => t
  | v => shown v

end ArticleArchive.Json
