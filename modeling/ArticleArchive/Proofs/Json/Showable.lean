import ArticleArchive.Json.Shown
import ArticleArchive.Proofs.Json.Extent
import ArticleArchive.Proofs.Text.Numerals

namespace ArticleArchive.Json

variable {t r : Text} {v : Json}

end ArticleArchive.Json
