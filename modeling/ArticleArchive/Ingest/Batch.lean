import ArticleArchive.Article.Draft
import ArticleArchive.Ingest.Source

namespace ArticleArchive

inductive IngestError where
  | badRow (row : Json)
  | unconvertible (e : Unconvertible)
  | source (e : SourceError)

namespace IngestError

/-- How much of a bad row is shown. -/
def shownLength : Nat := 80

def badRowMessage (row : Json) : Text :=
  "Invalid article in batch: ".toList ++ row.shown.take shownLength

end IngestError

inductive RowResult where
  | article (a : Article)
  | invalid (notes : List LogRecord)
  | unconvertible (e : Unconvertible)

namespace RowResult

/-- How a report names a row: by the identifier that it gives. -/
def rowName (fields : List (Text × Json)) : Text :=
  ((Json.field? Draft.idKey fields).map Json.plain).getD "<missing>".toList

def invalidNote (fields : List (Text × Json)) (e : InvalidArticle) : LogRecord :=
  .warning ("Skipping article id=".toList ++ rowName fields ++ ": ".toList ++ e.message)

/-- A value that is no object is passed over without a word. -/
def ofValue (v : Json) : RowResult :=
  match v with
  | .obj fields =>
    match Article.ofFields fields with
    | .ok a => .article a
    | .error (.invalid e) => .invalid [invalidNote fields e]
    | .error (.unconvertible e) => .unconvertible e
  | _ => .invalid []

end RowResult

/-- A batch in the making: the articles so far, the latest first, the number of rows passed over,
and the reports, the latest first. -/
structure Batch where
  articles : List Article := []
  skipped : Nat := 0
  notes : List LogRecord := []

/-- The reports of a batch, in order, and its articles unless it ended early. -/
structure Ingestion where
  notes : List LogRecord
  result : Except IngestError (List Article)

namespace Batch

def note (b : Batch) (r : LogRecord) : Batch :=
  { b with notes := r :: b.notes }

def duplicateNote (id : Nat) : LogRecord :=
  .warning ("Skipping duplicate article id=".toList ++ Nat.toDigits 10 id)

/-- Passes over a row, unless the batch is strict and ends with the row shown. -/
def skip (b : Batch) (tolerant : Bool) (row : Json) : Batch × Option IngestError :=
  if tolerant then ({ b with skipped := b.skipped + 1 }, none)
  else if row.isShowable then (b, some (.badRow row))
  else (b, some (.unconvertible .numeral))

/-- Takes in one row. The first valid row of each identifier becomes an article; a row that is
invalid or repeats an identifier is passed over, or ends the batch when it is strict. -/
def addRow (b : Batch) (tolerant : Bool) (row : Json) : Batch × Option IngestError :=
  match RowResult.ofValue row with
  | .article a =>
    if b.articles.any (·.id = a.id) then (b.note (duplicateNote a.id)).skip tolerant row
    else ({ b with articles := a :: b.articles }, none)
  | .invalid notes => { b with notes := notes.reverse ++ b.notes }.skip tolerant row
  | .unconvertible e => (b, some (.unconvertible e))

def summary (b : Batch) : LogRecord :=
  .info ("Ingested articles: OK=".toList ++ Nat.toDigits 10 b.articles.length ++
    " SKIP=".toList ++ Nat.toDigits 10 b.skipped)

def fail (b : Batch) (e : IngestError) : Ingestion :=
  ⟨b.notes.reverse, .error e⟩

def finish (b : Batch) : Ingestion :=
  ⟨(b.note b.summary).notes.reverse, .ok b.articles.reverse⟩

def run (tolerant : Bool) (b : Batch) : List Json → Ingestion
  | [] => b.finish
  | row :: rows =>
    match b.addRow tolerant row with
    | (b, none) => run tolerant b rows
    | (b, some e) => b.fail e

/-- Takes in what comes out of a file. -/
def runSource (tolerant : Bool) (error : Option SourceError) (b : Batch) :
    List SourceItem → Ingestion
  | [] =>
    match error with
    | none => b.finish
    | some e => b.fail (.source e)
  | .note r :: items => runSource tolerant error (b.note r) items
  | .row fields :: items =>
    match b.addRow tolerant (.obj fields) with
    | (b, none) => runSource tolerant error b items
    | (b, some e) => b.fail e

end Batch

namespace Ingestion

def ofRows (tolerant : Bool) (rows : List Json) : Ingestion :=
  Batch.run tolerant {} rows

def ofSource (tolerant : Bool) (s : Source) : Ingestion :=
  Batch.runSource tolerant s.error {} s.items

end Ingestion

end ArticleArchive
