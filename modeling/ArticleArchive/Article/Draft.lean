import ArticleArchive.Article.Basic
import ArticleArchive.Calendar.IsoFormat
import ArticleArchive.Text.Numeral

namespace ArticleArchive

inductive InvalidArticle where
  | missingId
  | idNotNumber (given : Text)
  | idNotInteger
  | idNotPositive
  | missingTitle
  | textNotString
  | categoryKind
  | missingCreatedAt
  | createdAtUnreadable (given : Text)
  | createdAtKind
  | viewCountNotNumber (given : Text)
  | viewCountNotInteger
  | viewCountNegative
  | localizationWithoutLanguage
  | localizationKind (language : Json)
  | localizationsKind

namespace InvalidArticle

def message : InvalidArticle → Text
  | missingId => "missing id".toList
  | idNotNumber given => "id is not a number: ".toList ++ given.quoted
  | idNotInteger => "id is not int".toList
  | idNotPositive => "id must be positive".toList
  | missingTitle => "missing title".toList
  | textNotString => "text field is not a string".toList
  | categoryKind => "category is not None, string or object".toList
  | missingCreatedAt => "missing created_at".toList
  | createdAtUnreadable given => "invalid created_at: ".toList ++ given.quoted
  | createdAtKind => "created_at is not a date".toList
  | viewCountNotNumber given => "view_count is not a number: ".toList ++ given.quoted
  | viewCountNotInteger => "view_count is not int".toList
  | viewCountNegative => "view_count must not be negative".toList
  | localizationWithoutLanguage => "translation without language".toList
  | localizationKind language => "invalid translation for ".toList ++ language.shown
  | localizationsKind => "translations is not a list or object".toList

end InvalidArticle

/-- A value that no rule refuses and that still has no normal form: a numeral that cannot be read or
written, a time outside the calendar, a language that cannot be a key. -/
inductive Unconvertible where
  | numeral
  | instant
  | language
  deriving DecidableEq, Repr

inductive DraftError where
  | invalid (e : InvalidArticle)
  | unconvertible (e : Unconvertible)

inductive GivenTime where
  | value (v : Json)
  | day (d : Date)
  | time (t : DateTime) (offset : Option UtcOffset)

/-- What is given as localizations: a value, or rows by language. -/
inductive GivenLocalizations where
  | value (v : Json)
  | rows (entries : List (Json × Json))

/-- The fields of an article as they are given. -/
structure Draft where
  id : Json := .null
  title : Json := .null
  content : Json := .null
  summary : Json := .null
  category : Json := .null
  createdAt : GivenTime := .value .null
  viewCount : Json := .null
  localizations : GivenLocalizations := .value .null

namespace Draft

def idKey : Text := "id".toList
def titleKey : Text := "title".toList
def contentKey : Text := "content".toList
def summaryKey : Text := "summary".toList
def categoryKey : Text := "category".toList
def nameKey : Text := "name".toList
def createdAtKey : Text := "created_at".toList
def viewCountKey : Text := "view_count".toList
def localizationsKey : Text := "translations".toList
def languageKey : Text := "language".toList

/-- The draft in the fields of an object; those that are missing are null. -/
def ofFields (fields : List (Text × Json)) : Draft where
  id := Json.fieldOrNull idKey fields
  title := Json.fieldOrNull titleKey fields
  content := Json.fieldOrNull contentKey fields
  summary := Json.fieldOrNull summaryKey fields
  category := Json.fieldOrNull categoryKey fields
  createdAt := .value (Json.fieldOrNull createdAtKey fields)
  viewCount := Json.fieldOrNull viewCountKey fields
  localizations := .value (Json.fieldOrNull localizationsKey fields)

def refuse {α : Type} (e : InvalidArticle) : Except DraftError α :=
  .error (.invalid e)

/-- The number that a text of digits and digit signs stands for. -/
def digitsValue (t : Text) : Except DraftError Int :=
  match Text.integer? t with
  | some i => .ok i
  | none => .error (.unconvertible .numeral)

def positiveId (i : Int) : Except DraftError Nat :=
  if 0 < i then .ok i.toNat else refuse .idNotPositive

/-- A positive integer, or a text that spells one. -/
def normalId (v : Json) : Except DraftError Nat :=
  match v with
  | .null => refuse .missingId
  | .bool _ => refuse .missingId
  | .int i => positiveId i
  | .str t =>
    if t.isEmpty then refuse .missingId
    else
      let digits := Text.strip t
      if Text.isDigits digits then (digitsValue digits).bind positiveId
      else refuse (.idNotNumber digits)
  | _ => refuse .idNotInteger

/-- A title is a text with a word in it; its words stand one space apart. -/
def normalTitle (v : Json) : Except DraftError Text :=
  match v with
  | .str t =>
    let title := Text.singleSpaced t
    if title.isEmpty then refuse .missingTitle else .ok title
  | _ => refuse .missingTitle

/-- A text without blanks at its ends, empty when none is given. -/
def normalText (v : Json) : Except DraftError Text :=
  if v.isVoid then .ok []
  else match v with
    | .str t => .ok (Text.strip t)
    | _ => refuse .textNotString

/-- An identifier in digits is a number, any other stays as it is. -/
def categoryId (v : Json) : Except DraftError Json :=
  match v with
  | .str t => if Text.isDigits (Text.strip t) then (digitsValue t).map .int else .ok v
  | _ => .ok v

/-- A name that is no text is the value as it is shown. -/
def categoryName (v : Json) : Except DraftError Text :=
  if v.isShowable then .ok (Text.singleSpaced v.plain) else .error (.unconvertible .numeral)

def namedCategory (id name : Json) : Except DraftError Category := do
  let id ← categoryId id
  let name ← categoryName name
  return { id, name }

/-- A name, or an object with one; without a name there is no category. -/
def normalCategory (v : Json) : Except DraftError (Option Category) :=
  match v with
  | .null => .ok none
  | .obj fields =>
    let name := Json.fieldOrNull nameKey fields
    if name.isVoid then .ok none
    else (namedCategory (Json.fieldOrNull idKey fields) name).map some
  | .str t =>
    if (Text.strip t).isEmpty then .ok none else (namedCategory .null v).map some
  | _ => refuse .categoryKind

/-- A time with an offset is taken to universal time, one without is kept. -/
def universalTime (t : DateTime) (offset : Option UtcOffset) : Except DraftError DateTime :=
  match offset with
  | none => .ok t
  | some o =>
    match t.toUtc? o with
    | some u => .ok u
    | none => .error (.unconvertible .instant)

/-- A day means its midnight, and a text is read as an ISO 8601 date-time. -/
def normalCreatedAt (g : GivenTime) : Except DraftError DateTime :=
  match g with
  | .day d => .ok (.midnight d)
  | .time t offset => universalTime t offset
  | .value .null => refuse .missingCreatedAt
  | .value (.str t) =>
    if t.isEmpty then refuse .missingCreatedAt
    else match DateTime.ofIso? (Text.strip t) with
      | some (time, offset) => universalTime time offset
      | none => refuse (.createdAtUnreadable t)
  | .value _ => refuse .createdAtKind

def naturalCount (i : Int) : Except DraftError Nat :=
  if 0 ≤ i then .ok i.toNat else refuse .viewCountNegative

/-- A natural number, a floating-point number or a text that stands for one; zero when none is
given. -/
def normalViewCount (v : Json) : Except DraftError Nat :=
  match v with
  | .null => .ok 0
  | .int i => naturalCount i
  | .float x =>
    match x.integer? with
    | some i => naturalCount i
    | none => refuse .viewCountNotInteger
  | .str t =>
    if t.isEmpty then .ok 0
    else
      let digits := Text.strip t
      if Text.isDigits digits then (digitsValue digits).bind naturalCount
      else refuse (.viewCountNotNumber digits)
  | _ => refuse .viewCountNotInteger

/-- The rows with one set: a language that is there keeps its place. -/
def setRow (language row : Json) : List (Json × Json) → List (Json × Json)
  | [] => [(language, row)]
  | (l, r) :: rows =>
    if l.sameKey language then (l, row) :: rows else (l, r) :: setRow language row rows

def addRow (rows : List (Json × Json)) (v : Json) : Except DraftError (List (Json × Json)) :=
  match v with
  | .obj fields =>
    let language := Json.fieldOrNull languageKey fields
    if language.isVoid then refuse .localizationWithoutLanguage
    else if language.isScalar then .ok (setRow language v rows)
    else .error (.unconvertible .language)
  | _ => refuse .localizationWithoutLanguage

def normalLocalization (language row : Json) : Except DraftError (Json × Localization) :=
  match row with
  | .obj fields => do
    let title ← normalTitle (Json.fieldOrNull titleKey fields)
    let content ← normalText (Json.fieldOrNull contentKey fields)
    let summary ← normalText (Json.fieldOrNull summaryKey fields)
    return (language, ⟨title, content, summary⟩)
  | _ => refuse (.localizationKind language)

def normalRows (rows : List (Json × Json)) : Except DraftError (List (Json × Localization)) :=
  rows.mapM fun r => normalLocalization r.1 r.2

/-- A list of rows that name their languages, or an object with a row for each language. -/
def normalLocalizations (g : GivenLocalizations) : Except DraftError (List (Json × Localization)) :=
  match g with
  | .rows rows => normalRows rows
  | .value v =>
    if v.isVoid then .ok []
    else match v with
      | .arr items => (items.foldlM addRow []).bind normalRows
      | .obj fields => normalRows (fields.map fun f => (.str f.1, f.2))
      | _ => refuse .localizationsKind

end Draft

namespace Article

/-- The article of a draft; of several faults the first in the order of the fields counts. -/
def ofDraft (d : Draft) : Except DraftError Article := do
  let id ← Draft.normalId d.id
  let title ← Draft.normalTitle d.title
  let content ← Draft.normalText d.content
  let summary ← Draft.normalText d.summary
  let category ← Draft.normalCategory d.category
  let createdAt ← Draft.normalCreatedAt d.createdAt
  let viewCount ← Draft.normalViewCount d.viewCount
  let localizations ← Draft.normalLocalizations d.localizations
  return { id, title, content, summary, category, createdAt, viewCount, localizations }

def ofFields (fields : List (Text × Json)) : Except DraftError Article :=
  ofDraft (Draft.ofFields fields)

end Article

end ArticleArchive
