import ArticleArchive.Query.Matching

namespace ArticleArchive

namespace SearchText

/-- How often a folded term occurs, an occurrence in the title counting five and one in the
summary two. -/
def score (s : SearchText) (term : Text) : Nat :=
  5 * Text.countOccurrences term s.title + 2 * Text.countOccurrences term s.summary +
    Text.countOccurrences term s.content

end SearchText

def relevance (terms : List Text) (a : Article) : Nat :=
  let s := SearchText.ofArticle a
  terms.foldr (fun t n => s.score (Text.fold t) + n) 0

/-- What articles are compared by: a number or a text. -/
inductive RankKey where
  | number (n : Nat)
  | text (t : Text)
  deriving DecidableEq

namespace RankKey

/-- Lexicographic order by code point. -/
def textLe : Text → Text → Bool
  | [], _ => true
  | _ :: _, [] => false
  | a :: as, b :: bs => a.toNat < b.toNat || (a == b && textLe as bs)

def le : RankKey → RankKey → Bool
  | number m, number n => m ≤ n
  | text s, text t => textLe s t
  | number _, text _ => true
  | text _, number _ => false

end RankKey

namespace SortKey

def rankKey (k : SortKey) (terms : List Text) (a : Article) : RankKey :=
  match k with
  | date => .number a.createdAt.rank
  | views => .number a.viewCount
  | title => .text (Text.fold a.title)
  | relevance => .number (ArticleArchive.relevance terms a)

end SortKey

/-- Pairs each item with its key, so that a key is computed once. -/
def withKeys {α : Type} (key : α → RankKey) (xs : List α) : List (RankKey × α) :=
  xs.map fun x => (key x, x)

/-- Orders items by key; items of one key stay as they stand. -/
def orderByKey {α : Type} (descending : Bool) (key : α → RankKey) (xs : List α) : List α :=
  let le (x y : RankKey × α) : Bool := if descending then y.1.le x.1 else x.1.le y.1
  ((withKeys key xs).mergeSort le).map (·.2)

namespace Article

def idLe (a b : Article) : Bool :=
  a.id ≤ b.id

def newerOrSame (a b : Article) : Bool :=
  b.createdAt.rank < a.createdAt.rank || (a.createdAt.rank == b.createdAt.rank && b.id ≤ a.id)

end Article

/-- Items that hold articles, in the order that a directive asks for; none for a key that does not
exist. -/
def arrangeBy? {α : Type} (article : α → Article) (sort : Option SortSpec) (terms : List Text)
    (xs : List α) : Option (List α) :=
  match sort with
  | none => some (xs.mergeSort fun x y => (article x).newerOrSame (article y))
  | some s =>
    (SortKey.ofText? s.key).map fun k =>
      orderByKey s.descending (fun x => k.rankKey terms (article x))
        (xs.mergeSort fun x y => (article x).idLe (article y))

/-- The order of results. Without a directive the newest come first, and of articles of one time
those with the greater identifier; with one, articles of one key stand by ascending identifier
whatever the direction. -/
def arrange? (sort : Option SortSpec) (terms : List Text) (as : List Article) :
    Option (List Article) :=
  arrangeBy? id sort terms as

end ArticleArchive
