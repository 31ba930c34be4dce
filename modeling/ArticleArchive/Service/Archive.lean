import ArticleArchive.Ingest.Batch
import ArticleArchive.Search
import ArticleArchive.Service.Document
import ArticleArchive.Service.Settings

namespace ArticleArchive

structure Archive where
  settings : Settings := {}
  articles : List Article := []

inductive Refusal where
  | query (r : Rejection)
  | document (id : Int) (message : Text)

namespace Issue

def toJson (i : Issue) : Json :=
  .ofFields [("code", .str i.code), ("message", .str i.message), ("value", i.value.elim .null .str)]

end Issue

namespace Refusal

def code : Refusal → Text
  | query (.malformed _) => "INVALID_SEARCH_SYNTAX".toList
  | query (.invalid _) => "INVALID_SEARCH_PARAMETERS".toList
  | document _ _ => "INVALID_DOCUMENT".toList

def message : Refusal → Text
  | query r => r.message
  | document _ m => m

def details : Refusal → List Json
  | query r => r.issues.map Issue.toJson
  | document id _ => [.ofFields [("id", .int id)]]

end Refusal

inductive ArchiveError where
  | refused (r : Refusal)
  | search (e : SearchError)
  | unfit (errors : List ShapeError)
  | emptyPages

structure SearchRequest where
  query : Text
  page : Int := 1
  limit : Option Int := none
  language : Text := []
  includeFuture : Option Bool := none

structure SearchHit where
  document : Document
  title : Text
  snippet : Text

namespace SearchHit

def style : MarkStyle := { escape := true }

/-- The excerpt is taken from the summary, or from the content when there is no summary. -/
def ofArticle (terms : List Text) (a : Article) : Checked SearchHit :=
  (Document.ofArticle a false).map fun document =>
    { document
      title := style.highlight a.title terms
      snippet := style.highlightSnippet (if a.summary.isEmpty then a.content else a.summary) terms
        snippetLength }

def toJson (h : SearchHit) : Json :=
  .ofFields [("document", h.document.toJson), ("highlighted_title", .str h.title),
    ("highlighted_snippet", .str h.snippet)]

end SearchHit

structure Pagination where
  page : Int
  limit : Int
  total : Nat
  totalPages : Int
  deriving DecidableEq

namespace Pagination

/-- The part of `items` on a page, counted from 1. -/
def window {α : Type} (page limit : Int) (items : List α) : List α :=
  let start := (page - 1) * limit
  slice items start (start + limit)

/-- The number of pages for so many items, from their quotient as a floating-point number. -/
def pageCount? (total : Nat) (limit : Int) : Option Int :=
  if limit = 0 then none
  else (Binary64.ofRatio (decide (limit < 0)) total limit.natAbs).ceil?

def toJson (p : Pagination) : Json :=
  .ofFields [("page", .int p.page), ("limit", .int p.limit), ("total", .int p.total),
    ("total_pages", .int p.totalPages)]

end Pagination

structure SearchPage where
  query : Text
  results : List SearchHit
  pagination : Pagination
  sort : SortSpec

namespace SearchPage

/-- A sort key is named in its canonical form. -/
def sortToJson (s : SortSpec) : Json :=
  .ofFields [("field", .str ((SortKey.ofText? s.key).elim s.key SortKey.text)),
    ("direction", .str s.direction)]

def toJson (p : SearchPage) : Json :=
  .ofFields [("query", .str p.query), ("results", .arr (p.results.map SearchHit.toJson)),
    ("pagination", p.pagination.toJson), ("sort", sortToJson p.sort)]

end SearchPage

structure QueryCheck where
  query : Text
  issues : List Issue

namespace QueryCheck

def isValid (c : QueryCheck) : Bool :=
  c.issues.isEmpty

def toJson (c : QueryCheck) : Json :=
  .ofFields [("query", .str c.query), ("valid", .bool c.isValid),
    ("errors", .arr (c.issues.map Issue.toJson))]

end QueryCheck

namespace Archive

/-- The articles that a search looks at: those of the future only if they are asked for, all with
their texts in a language. -/
def visible (a : Archive) (now : DateTime) (language : Text) (includeFuture : Bool) :
    List Article :=
  (a.articles.filter fun x => includeFuture || decide (x.createdAt.rank ≤ now.rank)).map
    (·.localized language)

/-- The outcome of a search over all pages. -/
def outcome (a : Archive) (now : DateTime) (r : SearchRequest) :
    Except ArchiveError SearchOutcome :=
  let includeFuture := r.includeFuture.getD a.settings.includeFuture
  match SearchOutcome.ofText r.query (a.visible now r.language includeFuture) with
  | .ok o => .ok o
  | .error (.query (.rejected e)) => .error (.refused (.query e))
  | .error e => .error (.search e)

/-- The page of an outcome; pages below the first are the first. -/
def pageOf (settings : Settings) (r : SearchRequest) (o : SearchOutcome) :
    Except ArchiveError SearchPage := do
  let page := max r.page 1
  let limit := settings.appliedLimit r.limit
  let found := Pagination.window page limit o.articles
  let results ← (found.mapM (SearchHit.ofArticle o.terms)).mapError .unfit
  match Pagination.pageCount? o.articles.length limit with
  | none => throw .emptyPages
  | some totalPages =>
    return { query := r.query, results, sort := o.sort,
             pagination := ⟨page, limit, o.articles.length, totalPages⟩ }

def search (a : Archive) (now : DateTime) (r : SearchRequest) : Except ArchiveError SearchPage := do
  pageOf a.settings r (← a.outcome now r)

def check (query : Text) : Except Fault QueryCheck :=
  (Query.check query).map fun issues => ⟨query, issues⟩

def duplicateMessage (id : Nat) : Text :=
  "An article with id ".toList ++ Nat.toDigits 10 id ++ " already exists".toList

/-- Adds an article at the end, unless there is one with its identifier. -/
def add (a : Archive) (x : Article) : Except Refusal Archive :=
  if a.articles.any (·.id = x.id) then .error (.document x.id (duplicateMessage x.id))
  else .ok { a with articles := a.articles ++ [x] }

/-- Puts the articles of a file in the place of those that are there. -/
def load (a : Archive) (s : Source) : Except IngestError Archive :=
  (Ingestion.ofSource true s).result.map fun articles => { a with articles }

def clear (a : Archive) : Archive :=
  { a with articles := [] }

def healthToJson (a : Archive) : Json :=
  .ofFields [("total_documents", .int a.articles.length), ("status", .str "ok".toList)]

end Archive

end ArticleArchive
