import ArticleArchive.Article.Draft
import ArticleArchive.Calendar.Timestamp
import ArticleArchive.Service.Shape

namespace ArticleArchive

/-- A category whose identifier, if it has one, is an integer. -/
structure CategoryEntry where
  id : Option Int := none
  name : Text
  deriving DecidableEq

structure Document where
  id : Int
  title : Text
  content : Text := []
  summary : Text := []
  category : Option CategoryEntry := none
  createdAt : DateTime
  viewCount : Int := 0
  localizations : List (Text × Localization) := []
  deriving DecidableEq

/-- A document as it is handed in; its time may be a local one. -/
structure Submission where
  document : Document
  offset : Option UtcOffset := none

namespace Localization

def toJson (t : Localization) : Json :=
  .ofFields [("title", .str t.title), ("content", .str t.content), ("summary", .str t.summary)]

end Localization

namespace CategoryEntry

def toJson (c : CategoryEntry) : Json :=
  .ofFields [("id", c.id.elim .null .int), ("name", .str c.name)]

end CategoryEntry

namespace Document

def toJson (d : Document) : Json :=
  .ofFields [("id", .int d.id), ("title", .str d.title), ("content", .str d.content),
    ("summary", .str d.summary), ("category", d.category.elim .null CategoryEntry.toJson),
    ("created_at", .str d.createdAt.text), ("view_count", .int d.viewCount),
    ("translations", .obj (d.localizations.map fun t => (t.1, t.2.toJson)))]

end Document

namespace Submission

/-- A time: a timestamp, a day, or a number of seconds, which may be written as a text. -/
def timeText? (t : Text) : Option (DateTime × Option UtcOffset) :=
  match DateTime.ofTimestamp? t, DateTime.ofUnixText? t with
  | some found, _ => some found
  | none, some time => some (time, some .zero)
  | none, none => (Date.ofText? t).map fun d => (.midnight d, none)

def time (v : Json) : Reading (DateTime × Option UtcOffset) :=
  let universal (t : Option DateTime) : Reading (DateTime × Option UtcOffset) :=
    t.elim (.error .dateTimeParsing) fun time => .ok (time, some .zero)
  match v with
  | .str t => (timeText? t).elim (.error .dateTimeFromDate) .ok
  | .int i =>
    match Binary64.ofRatio (decide (i < 0)) i.natAbs 1 with
    | .infinite _ => .error .dateTimeType
    | _ => universal (DateTime.ofUnix? i)
  | .float x => universal (DateTime.ofUnixFloat? x)
  | _ => .error .dateTimeType

def category (v : Json) : Checked CategoryEntry :=
  v |> Shape.object fun fields =>
    (Checked.apply (.ok CategoryEntry.mk)
      (Shape.optional Draft.idKey none (Shape.nullable (Shape.leaf Shape.integer)) fields)).apply
      (Shape.required Draft.nameKey (Shape.leaf Shape.text) fields)

def localization (v : Json) : Checked Localization :=
  v |> Shape.object fun fields =>
    let title := Shape.required Draft.titleKey (Shape.leaf Shape.text) fields
    let content := Shape.optional Draft.contentKey [] (Shape.leaf Shape.text) fields
    let summary := Shape.optional Draft.summaryKey [] (Shape.leaf Shape.text) fields
    ((Checked.apply (.ok Localization.mk) title).apply content).apply summary

def localizations (v : Json) : Checked (List (Text × Localization)) :=
  match v with
  | .obj rows => rows |> Checked.all fun r =>
      Checked.under (.name r.1) ((localization r.2).map fun t => (r.1, t))
  | _ => .fail .dictType v

def build (id : Int) (title content summary : Text) (category : Option CategoryEntry)
    (time : DateTime × Option UtcOffset) (viewCount : Int)
    (localizations : List (Text × Localization)) : Submission where
  document := ⟨id, title, content, summary, category, time.1, viewCount, localizations⟩
  offset := time.2

/-- The submission in the fields of an object, its localizations being checked by themselves. -/
def ofParts (fields : List (Text × Json)) (localizations : Checked (List (Text × Localization))) :
    Checked Submission :=
  let id := Shape.required Draft.idKey (Shape.leaf fun v => (Shape.integer v).atLeast 1) fields
  let title := Shape.required Draft.titleKey (Shape.leaf fun v => (Shape.text v).longerThanNone)
    fields
  let content := Shape.optional Draft.contentKey [] (Shape.leaf Shape.text) fields
  let summary := Shape.optional Draft.summaryKey [] (Shape.leaf Shape.text) fields
  let category := Shape.optional Draft.categoryKey none (Shape.nullable category) fields
  let time := Shape.required Draft.createdAtKey (Shape.leaf time) fields
  let viewCount := Shape.optional Draft.viewCountKey 0
    (Shape.leaf fun v => (Shape.integer v).atLeast 0) fields
  let texts := (((Checked.apply (.ok build) id).apply title).apply content).apply summary
  (((texts.apply category).apply time).apply viewCount).apply localizations

def ofFields (fields : List (Text × Json)) : Checked Submission :=
  ofParts fields (Shape.optional Draft.localizationsKey [] localizations fields)

/-- The submission in a request; null is no submission. -/
def ofBody (body : Option Json) : Checked Submission :=
  match body with
  | none => .fail .missing .null
  | some .null => .fail .missing .null
  | some v => Shape.object ofFields v

def draft (s : Submission) : Draft where
  id := .int s.document.id
  title := .str s.document.title
  content := .str s.document.content
  summary := .str s.document.summary
  category := s.document.category.elim .null CategoryEntry.toJson
  createdAt := .time s.document.createdAt s.offset
  viewCount := .int s.document.viewCount
  localizations := .value (.obj (s.document.localizations.map fun t => (t.1, t.2.toJson)))

end Submission

namespace Category

def toJson (c : Category) : Json :=
  .obj [(Draft.idKey, c.id), (Draft.nameKey, .str c.name)]

end Category

namespace Article

def fields (a : Article) : List (Text × Json) :=
  [(Draft.idKey, .int a.id), (Draft.titleKey, .str a.title), (Draft.contentKey, .str a.content),
    (Draft.summaryKey, .str a.summary), (Draft.categoryKey, a.category.elim .null Category.toJson),
    (Draft.createdAtKey, .str a.createdAt.text), (Draft.viewCountKey, .int a.viewCount)]

end Article

namespace Document

/-- How the place of a key that is no text is written; it is a number if it fits a word. -/
def keyPlace (k : Json) : PathPart :=
  match k with
  | .bool b => .number (if b then 1 else 0)
  | .int i => if -2 ^ (63 : Nat) ≤ i ∧ i < 2 ^ (63 : Nat) then .number i else .name k.shown
  | _ => .name k.plain

/-- The part of a place that says that the key itself is at fault. -/
def keyMark : PathPart := .name "[key]".toList

def languageEntry (t : Json × Localization) : Checked (Text × Localization) :=
  match t.1 with
  | .str language => .ok (language, t.2)
  | k => Checked.under (keyPlace k) (Checked.under keyMark (.fail .stringType k))

/-- The document of an article, with or without its localizations. What the article writes out is
checked like what is handed in. -/
def ofArticle (a : Article) (withLocalizations : Bool) : Checked Document :=
  let localizations := Checked.under (.name Draft.localizationsKey)
    (Checked.all languageEntry (if withLocalizations then a.localizations else []))
  (Submission.ofParts a.fields localizations).map (·.document)

end Document

end ArticleArchive
