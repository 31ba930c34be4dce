import ArticleArchive.Calendar.DateTime
import ArticleArchive.Json.Shown

namespace ArticleArchive

/-- A category keeps the identifier that it was given, whatever kind of value that is. -/
structure Category where
  id : Json
  name : Text

structure Localization where
  title : Text
  content : Text
  summary : Text
  deriving DecidableEq

/-- A searchable article. Its localizations are kept in order, one a language. -/
structure Article where
  id : Nat
  title : Text
  content : Text
  summary : Text
  category : Option Category
  createdAt : DateTime
  viewCount : Nat
  localizations : List (Json × Localization)

namespace Category

def shown (c : Category) : Text :=
  "Category(id=".toList ++ c.id.shown ++ ", name=".toList ++ c.name.quoted ++ ")".toList

end Category

namespace Article

def shown (a : Article) : Text :=
  "Article(id=".toList ++ Nat.toDigits 10 a.id ++ ", title=".toList ++ a.title.quoted ++ ")".toList

/-- The texts in a language, none for the empty name. -/
def localization? (a : Article) (language : Text) : Option Localization :=
  if language.isEmpty then none
  else (a.localizations.find? fun t => t.1.sameKey (.str language)).map (·.2)

def localized (a : Article) (language : Text) : Article :=
  match a.localization? language with
  | some t => { a with title := t.title, content := t.content, summary := t.summary }
  | none => a

end Article

end ArticleArchive
