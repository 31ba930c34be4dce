import ArticleArchive.Json.Shown

namespace ArticleArchive.Json

def writtenChar (c : Char) : Text :=
  if c = '"' ∨ c = '\\' then ['\\', c]
  else if c.toNat < 0x20 then '\\' :: 'u' :: Text.hexDigits 4 c.toNat
  else [c]

def writtenText (t : Text) : Text :=
  '"' :: (t.flatMap writtenChar ++ ['"'])

def writtenNumber : Binary64 → Text
  | .nan => "NaN".toList
  | .infinite negative => Binary64.signText negative ++ "Infinity".toList
  | x => x.written

mutual

def written : Json → Text
  | null => "null".toList
  | bool true => "true".toList
  | bool false => "false".toList
  | int i => digitsOf i
  | float x => writtenNumber x
  | str t => writtenText t
  | arr items => '[' :: ([','].intercalate (writtenItems items) ++ [']'])
  | obj fields => '\x7b' :: ([','].intercalate (writtenFields fields) ++ ['\x7d'])

def writtenItems : List Json → List Text
  | [] => []
  | v :: vs => written v :: writtenItems vs

def writtenFields : List (Text × Json) → List Text
  | [] => []
  | (name, v) :: fields => (writtenText name ++ ':' :: written v) :: writtenFields fields

end

end ArticleArchive.Json
