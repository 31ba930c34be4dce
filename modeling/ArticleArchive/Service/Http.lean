import ArticleArchive.Service.Archive
import ArticleArchive.Service.SampleCorpus

namespace ArticleArchive.Http

inductive Body where
  | json (v : Json)
  | text (t : Text)

/-- A request. The values in its body are those that the reader of JSON gives. -/
structure Request where
  method : Text
  path : Text
  params : List (Text × Text) := []
  body : Option Json := none

structure Response where
  status : Nat
  body : Body

inductive Endpoint where
  | search
  | validation
  | health
  | documents
  deriving DecidableEq

namespace Endpoint

def all : List Endpoint := [search, validation, health, documents]

def path : Endpoint → Text
  | search => "/search/".toList
  | validation => "/search/validate".toList
  | health => "/search/health".toList
  | documents => "/documents/".toList

def method : Endpoint → Text
  | documents => "POST".toList
  | _ => "GET".toList

def at? (path : Text) : Option Endpoint :=
  all.find? fun e => e.path = path

/-- The path with a slash more at its end, or without the slashes there. -/
def otherPath (path : Text) : Text :=
  if path.getLast? = some '/' then (path.reverse.dropWhile (· = '/')).reverse
  else path ++ ['/']

/-- The endpoint at a path, or else at the path that differs by the slash at its end. -/
def ofPath? (path : Text) : Option Endpoint :=
  match at? path with
  | some e => some e
  | none => if path = ['/'] then none else at? (otherPath path)

end Endpoint

/-- What the names begin with of fields that are not sent back. -/
def innerPrefix : Text := "_sa".toList

mutual

/-- A value as it is sent back to where it came from. -/
def echo : Json → Json
  | .arr items => .arr (echoItems items)
  | .obj fields => .obj (echoFields fields)
  | v => v

def echoItems : List Json → List Json
  | [] => []
  | v :: vs => echo v :: echoItems vs

def echoFields : List (Text × Json) → List (Text × Json)
  | [] => []
  | (name, v) :: fields =>
    if innerPrefix.isPrefixOf name then echoFields fields else (name, echo v) :: echoFields fields

end

namespace Response

def ofJson (v : Json) : Response :=
  ⟨200, .json v⟩

def detail (status : Nat) (message : String) : Response :=
  ⟨status, .json (.ofFields [("detail", .str message.toList)])⟩

def notFound : Response :=
  detail 404 "Not Found"

def methodNotAllowed : Response :=
  detail 405 "Method Not Allowed"

def serverError : Response :=
  ⟨500, .text "Internal Server Error".toList⟩

def found (data : Json) (pagination : Json) : Response :=
  ofJson (.ofFields [("status", .str "ok".toList), ("data", data), ("meta", pagination),
    ("error", .null)])

def refused (r : Refusal) : Response :=
  ⟨400, .json (.ofFields [("status", .str "error".toList),
    ("error", .ofFields [("code", .str r.code), ("message", .str r.message),
      ("details", .arr r.details)])])⟩

def unprocessable (errors : List ShapeError) : Response :=
  ⟨422, .json (.arr (errors.map ShapeError.toJson))⟩

/-- The answer to what does not fit. It sends back the values that are at fault, of which only the
places and the kinds of the mismatches are kept here; it fails if a number in one of the values is
infinite or no number, because strict JSON has no numeral for it. -/
def unfit (errors : List ShapeError) : Response :=
  if errors.all fun e => (echo e.input).isFinite then unprocessable errors else serverError

def withoutBody (r : Response) : Response :=
  { r with body := .text [] }

end Response

/-- Asks for no body in the response. -/
def headMethod : Text := "HEAD".toList

namespace Request

def queryPlace : PathPart := .name "query".toList

def param {α : Type} (r : Request) (name : String) (absent : α) (read : Text → Reading α) :
    Checked α :=
  match r.params.lookup name.toList with
  | none => .ok absent
  | some t =>
    Checked.under queryPlace (Checked.under (.name name.toList) ((read t).checked (.str t)))

def queryLength : Nat := 500

def languageLength : Nat := 10

def greatestLimit : Int := 100

def query (r : Request) : Checked Text :=
  r.param "q" [] fun t => Reading.upToLength queryLength (.ok t)

def page (r : Request) : Checked Int :=
  r.param "page" 1 fun t => (Shape.integerText t).atLeast 1

def limit (r : Request) : Checked Int :=
  r.param "limit" 10 fun t => ((Shape.integerText t).atLeast 1).atMost greatestLimit

def language (r : Request) : Checked Text :=
  r.param "lang" [] fun t => Reading.upToLength languageLength (.ok t)

def includeFuture (r : Request) : Checked Bool :=
  r.param "include_future" false Shape.truthText

def search (r : Request) : Checked SearchRequest :=
  let build (query : Text) (page limit : Int) (language : Text) (future : Bool) : SearchRequest :=
    { query, page, limit := some limit, language, includeFuture := some future }
  ((((Checked.apply (.ok build) r.query).apply r.page).apply r.limit).apply r.language).apply
    r.includeFuture

def submission (r : Request) : Checked Submission :=
  Checked.under (.name "body".toList) (Submission.ofBody r.body)

end Request

def pageMeta (p : Pagination) : Json :=
  .ofFields [("page", .int p.page), ("limit", .int p.limit), ("total_hits", .int p.total)]

def search (a : Archive) (now : DateTime) (r : Request) : Response :=
  match r.search with
  | .error es => .unfit es
  | .ok q =>
    match a.search now q with
    | .ok p => .found p.toJson (pageMeta p.pagination)
    | .error (.refused e) => .refused e
    | .error _ => .serverError

def validate (r : Request) : Response :=
  match r.query with
  | .error es => .unfit es
  | .ok q =>
    match Archive.check q with
    | .ok c => .found c.toJson .null
    | .error _ => .serverError

def added (id : Nat) : Json :=
  .ofFields [("status", .str "added".toList), ("id", .int id)]

def addDocument (a : Archive) (s : Submission) : Response × Archive :=
  match Article.ofDraft s.draft with
  | .error (.invalid e) => (.refused (.document s.document.id e.message), a)
  | .error (.unconvertible _) => (.serverError, a)
  | .ok x =>
    match a.add x with
    | .error e => (.refused e, a)
    | .ok b => (.ofJson (added x.id), b)

def submit (a : Archive) (r : Request) : Response × Archive :=
  match r.submission with
  | .error es => (.unfit es, a)
  | .ok s => addDocument a s

def handle (a : Archive) (now : DateTime) (r : Request) : Response × Archive :=
  match Endpoint.ofPath? r.path with
  | none => (.notFound, a)
  | some e =>
    if r.method ≠ e.method then (.methodNotAllowed, a)
    else match e with
      | .search => (search a now r, a)
      | .validation => (validate r, a)
      | .health => (.found a.healthToJson .null, a)
      | .documents => submit a r

/-- The response to a request, and the archive after it. Methods are told apart in capitals. -/
def respond (a : Archive) (now : DateTime) (r : Request) : Response × Archive :=
  let r := { r with method := r.method.map Char.toUpper }
  let (response, b) := handle a now r
  (if r.method = headMethod then response.withoutBody else response, b)

theorem respond_of_ofPath {r : Request} {e : Endpoint} (hpath : Endpoint.ofPath? r.path = some e)
    (hmethod : r.method.map Char.toUpper = e.method) (a : Archive) (now : DateTime) :
    respond a now r =
      match e with
      | .search => (search a now r, a)
      | .validation => (validate r, a)
      | .health => (.found a.healthToJson .null, a)
      | .documents => submit a r := by
  have hhead : e.method ≠ headMethod := by
    cases e <;> decide
  simp only [respond, handle, hpath, hmethod, ne_eq, not_true_eq_false, if_false, if_neg hhead]
  cases e <;> rfl

/-- The archive as it starts. A file that is named and has no content does not exist. -/
def start (settings : Settings) (content : Option Text) : Except IngestError Archive :=
  let empty : Archive := { settings }
  match content, settings.dataPath with
  | some t, _ => empty.load (.ofContent t)
  | none, some _ => .ok empty
  | none, none => (Ingestion.ofRows true SampleCorpus.rows).result.map fun articles =>
      { empty with articles }

end ArticleArchive.Http
