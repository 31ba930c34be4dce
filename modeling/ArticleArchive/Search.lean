import ArticleArchive.Highlight
import ArticleArchive.Ranking

namespace ArticleArchive

inductive SearchError where
  | query (f : Failure)
  | matching (e : MatchError)
  | unknownSortKey
  deriving DecidableEq

/-- The results of a search in order, how they are ordered, and the terms to mark in them. -/
structure SearchOutcome where
  query : Option Query := none
  articles : List Article := []
  sort : SortSpec := .newestFirst
  terms : List Text := []

namespace SearchOutcome

def ofQuery (q : Query) (corpus : List Article) : Except SearchError SearchOutcome := do
  let found ← (q.execute corpus).mapError .matching
  let terms := q.terms
  match arrange? q.sort terms found with
  | some articles => return { query := some q, articles, sort := q.effectiveSort, terms }
  | none => throw .unknownSortKey

/-- The outcome for a query text. It is compiled before any article is looked at, and a blank text
asks for nothing. -/
def ofText (raw : Text) (corpus : List Article) : Except SearchError SearchOutcome :=
  if Query.isBlankText raw then .ok {}
  else
    match Query.compile raw with
    | .error f => .error (.query f)
    | .ok q => ofQuery q corpus

end SearchOutcome

end ArticleArchive
