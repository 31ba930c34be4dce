import ArticleArchive.Text.Fold
import ArticleArchive.Text.Html
import ArticleArchive.Text.Numeral
import ArticleArchive.Text.Occurrence
import ArticleArchive.Text.Similarity
import ArticleArchive.Text.WordChar
import ArticleArchive.Json.Writer
import ArticleArchive.Json.Reader
import ArticleArchive.Calendar.IsoFormat
import ArticleArchive.Article.Localized
import ArticleArchive.Query.Validity
import ArticleArchive.Search
import ArticleArchive.Ingest.Batch
import ArticleArchive.Service.Http
import ArticleArchive.Proofs.Query.Tiling
import ArticleArchive.Proofs.Query.Scan
import ArticleArchive.Proofs.Query.Chain
import ArticleArchive.Proofs.Query.Faultless
import ArticleArchive.Proofs.Query.Evaluation
import ArticleArchive.Proofs.Query.Collecting
import ArticleArchive.Proofs.Query.Idle
import ArticleArchive.Proofs.Query.Outcome
import ArticleArchive.Proofs.Query.Safety
import ArticleArchive.Proofs.Service.Verdict
import ArticleArchive.Proofs.Ingest.Formats
import ArticleArchive.Proofs.Ingest.Tolerance
import ArticleArchive.Proofs.Service.Pages
import ArticleArchive.Proofs.Search.Insertion
import ArticleArchive.Proofs.Query.Juxtaposition
import ArticleArchive.Proofs.Text.Words
import ArticleArchive.Proofs.Service.History
import ArticleArchive.Proofs.Number.Quotient
import ArticleArchive.Proofs.Service.Partition
import ArticleArchive.Proofs.Text.References
import ArticleArchive.Proofs.Highlight.Marks
import ArticleArchive.Proofs.Service.Hidden
import ArticleArchive.Proofs.Service.Defaults
import ArticleArchive.Proofs.Service.Submissions
import ArticleArchive.Proofs.Search.Agreement
import ArticleArchive.Proofs.Highlight.Excerpts
import ArticleArchive.Proofs.Article.RoundTrip
import ArticleArchive.Proofs.Ingest.Lines
import ArticleArchive.Proofs.Query.Grammar
import ArticleArchive.Proofs.Query.Rendering
import ArticleArchive.Proofs.Query.Problems
import ArticleArchive.Proofs.Search.Stability
import ArticleArchive.Proofs.Highlight.Cover
import ArticleArchive.Proofs.Highlight.Cuts
import ArticleArchive.Proofs.Highlight.Ellipses
import ArticleArchive.Proofs.Markup.Repetition
import ArticleArchive.Proofs.Highlight.Terms
import ArticleArchive.Proofs.Ingest.FirstRows
import ArticleArchive.Proofs.Article.Languages
import ArticleArchive.Proofs.Article.CreationTimes
import ArticleArchive.Proofs.Query.Quotation
import ArticleArchive.Proofs.Query.DateBounds
import ArticleArchive.Proofs.Calendar.WrittenDays
import ArticleArchive.Proofs.Service.Limits
