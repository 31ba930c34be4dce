import ArticleArchive.Proofs.Firsts
import ArticleArchive.Proofs.Ingest.Tolerance
import ArticleArchive.Proofs.Json.Showable

namespace ArticleArchive

/-- The article that a row becomes. -/
def RowResult.article? : RowResult → Option Article
  | .article a => some a
  | _ => none

/-- The articles that rows become, in their order, whichever identifiers they have. -/
def rowArticles (rows : List Json) : List Article :=
  rows.filterMap fun row => (RowResult.ofValue row).article?

theorem rowArticles_concat_of_article {row : Json} {a : Article}
    (h : RowResult.ofValue row = .article a) (rows : List Json) :
    rowArticles (rows ++ [row]) = rowArticles rows ++ [a] := by
  simp [rowArticles, h, RowResult.article?]

namespace Batch

variable {b b' : Batch} {seen : List Json} {row : Json}

/-- The articles of a batch are the first ones of their identifiers among those that its rows
become, and all other rows are counted. -/
structure KeepsFirsts (b : Batch) (seen : List Json) : Prop where
  articles : b.articles.reverse = firstsBy (·.id) (rowArticles seen)
  total : b.articles.length + b.skipped = seen.length

theorem KeepsFirsts.empty : KeepsFirsts {} [] :=
  ⟨rfl, rfl⟩

theorem KeepsFirsts.take (h : b.KeepsFirsts seen) {a : Article}
    (ha : RowResult.ofValue row = .article a) (hid : a.id ∉ (rowArticles seen).map (·.id)) :
    KeepsFirsts { b with articles := a :: b.articles } (seen ++ [row]) := by
  have htotal := h.total
  constructor
  · rw [rowArticles_concat_of_article ha, firstsBy_concat_of_notMem hid, ← h.articles,
      List.reverse_cons]
  · simp only [List.length_append, List.length_cons, List.length_nil]
    omega

/-- What a strict batch ends with at a row that it does not take. -/
def refusal (row : Json) : IngestError :=
  if row.isShowable then .badRow row else .unconvertible .numeral

end Batch

namespace Ingestion

end Ingestion

end ArticleArchive
