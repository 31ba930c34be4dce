import ArticleArchive.Article.Draft

namespace ArticleArchive.Article

/-- The article that the parts of an article give with other texts. Its category and localizations
are no longer in the form of a draft and are taken as they are. -/
def withTexts (a : Article) (t : Localization) : Except DraftError Article := do
  let id ← Draft.normalId (.int a.id)
  let title ← Draft.normalTitle (.str t.title)
  let content ← Draft.normalText (.str t.content)
  let summary ← Draft.normalText (.str t.summary)
  let createdAt ← Draft.normalCreatedAt (.time a.createdAt none)
  let viewCount ← Draft.normalViewCount (.int a.viewCount)
  return { a with id, title, content, summary, createdAt, viewCount }

def inLanguage (a : Article) (language : Text) : Except DraftError Article :=
  match a.localization? language with
  | some t => a.withTexts t
  | none => .ok a

end ArticleArchive.Article
