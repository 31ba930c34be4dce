import ArticleArchive.Query.Token

namespace ArticleArchive

structure Issue where
  code : Text
  message : Text
  value : Option Text
  deriving DecidableEq

inductive SyntaxError where
  | unbalancedQuotes (raw : Text)
  | emptyFieldValue (field : Text)
  | emptyPhrase
  | invalidSort (directive : Text)
  | duplicateField (field : Text)
  | conflictingSort (directive : Text)
  | invalidExclusion (source : Text)
  | danglingOperator (c : Connective)
  deriving DecidableEq, Repr

namespace SyntaxError

def code : SyntaxError → Text
  | unbalancedQuotes _ => "UNBALANCED_QUOTES".toList
  | emptyFieldValue _ => "EMPTY_FIELD_VALUE".toList
  | emptyPhrase => "EMPTY_PHRASE".toList
  | invalidSort _ => "INVALID_SORT".toList
  | duplicateField _ => "DUPLICATE_FIELD".toList
  | conflictingSort _ => "CONFLICTING_SORT".toList
  | invalidExclusion _ => "INVALID_EXCLUSION".toList
  | danglingOperator _ => "DANGLING_OPERATOR".toList

def message : SyntaxError → Text
  | unbalancedQuotes _ => "unbalanced quotes".toList
  | emptyFieldValue field => "empty value for field '".toList ++ field ++ "'".toList
  | emptyPhrase => "empty quoted phrase".toList
  | invalidSort directive =>
    "invalid sort directive '".toList ++ directive ++ "', use sort:<field>:<asc|desc>".toList
  | duplicateField field => "field '".toList ++ field ++ "' is given more than once".toList
  | conflictingSort _ => "only one sort directive is allowed".toList
  | invalidExclusion source =>
    "'".toList ++ source ++ "' cannot be excluded, only words and phrases can".toList
  | danglingOperator c => "'".toList ++ c.keyword ++ "' must join two search clauses".toList

def value : SyntaxError → Text
  | unbalancedQuotes raw => raw
  | emptyFieldValue field => field
  | emptyPhrase => ['"', '"']
  | invalidSort directive => directive
  | duplicateField field => field
  | conflictingSort directive => directive
  | invalidExclusion source => source
  | danglingOperator c => c.keyword

def issue (e : SyntaxError) : Issue :=
  ⟨e.code, e.message, some e.value⟩

end SyntaxError

inductive Problem where
  | invalidDate (value : Text)
  | invalidRange (low high : Text)
  | invalidNumber (value : Text)
  | unknownField (name : Text) (hint : Option Text)
  | unknownSortKey (name : Text) (hint : Option Text)
  deriving DecidableEq, Repr

inductive FieldName where
  | title
  | content
  | category
  deriving DecidableEq, Repr

namespace FieldName

def all : List FieldName := [title, content, category]

def text : FieldName → Text
  | title => "title".toList
  | content => "content".toList
  | category => "category".toList

def ofText? (t : Text) : Option FieldName :=
  all.find? fun f => f.text = t

end FieldName

inductive SortKey where
  | date
  | views
  | title
  | relevance
  deriving DecidableEq, Repr

namespace SortKey

def text : SortKey → Text
  | date => "date".toList
  | views => "views".toList
  | title => "title".toList
  | relevance => "relevance".toList

def names : List (Text × SortKey) := [
  (date.text, date), (views.text, views), (title.text, title), (relevance.text, relevance),
  ("created_at".toList, date), ("view_count".toList, views)]

def ofText? (t : Text) : Option SortKey :=
  names.lookup t

end SortKey

namespace Problem

def code : Problem → Text
  | invalidDate _ => "INVALID_DATE".toList
  | invalidRange _ _ => "INVALID_RANGE".toList
  | invalidNumber _ => "INVALID_NUMBER".toList
  | unknownField _ _ => "UNKNOWN_FIELD".toList
  | unknownSortKey _ _ => "UNKNOWN_SORT_FIELD".toList

/-- A guess at the name that was meant, or else all names there are. -/
def adviceText (hint : Option Text) (choices : List Text) : Text :=
  match hint with
  | some h => " (did you mean '".toList ++ h ++ "'?)".toList
  | none => ", expected one of: ".toList ++ [',', ' '].intercalate choices

def message : Problem → Text
  | invalidDate v => "invalid date '".toList ++ v ++ "', use YYYY-MM-DD".toList
  | invalidRange low high =>
    "date range start ".toList ++ low ++ " is after end ".toList ++ high
  | invalidNumber v =>
    "invalid number '".toList ++ v ++ "' for views, expected a non-negative integer".toList
  | unknownField name hint =>
    "unknown field '".toList ++ name ++ "'".toList ++
      adviceText hint (FieldName.all.map FieldName.text)
  | unknownSortKey name hint =>
    "unknown sort field '".toList ++ name ++ "'".toList ++
      adviceText hint (SortKey.names.map (·.1))

def value : Problem → Text
  | invalidDate v => v
  | invalidRange low high => low ++ '.' :: '.' :: high
  | invalidNumber v => v
  | unknownField name _ => name
  | unknownSortKey name _ => name

def issue (p : Problem) : Issue :=
  ⟨p.code, p.message, some p.value⟩

end Problem

/-- Why a query is turned down: for its first mistake in form, or for all its mistakes in
meaning. -/
inductive Rejection where
  | malformed (e : SyntaxError)
  | invalid (problems : List Problem)
  deriving DecidableEq

namespace Rejection

def issues : Rejection → List Issue
  | malformed e => [e.issue]
  | invalid ps => ps.map Problem.issue

def detail : Rejection → Text
  | malformed e => e.message
  | invalid ps => [';', ' '].intercalate (ps.map Problem.message)

def message : Rejection → Text
  | malformed e => "Invalid search syntax: ".toList ++ e.message
  | r => "Invalid search parameters: ".toList ++ r.detail

end Rejection

/-- A step that no rule of the language accounts for: a quote without a partner, `OR` without a
clause before it, a token of no known kind. -/
inductive Fault where
  | unclosedQuote
  | emptyChain
  | unknownToken
  deriving DecidableEq, Repr

inductive Failure where
  | rejected (r : Rejection)
  | fault (f : Fault)
  deriving DecidableEq

namespace Failure

def malformed (e : SyntaxError) : Failure :=
  .rejected (.malformed e)

end Failure

end ArticleArchive
