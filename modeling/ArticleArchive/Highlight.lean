import ArticleArchive.Markup
import ArticleArchive.Query.Basic
import ArticleArchive.Snippet
import ArticleArchive.Text.Fold
import ArticleArchive.Text.Html
import ArticleArchive.Text.Occurrence

namespace ArticleArchive

/-- The characters from index `start` up to index `stop`. -/
structure Span where
  start : Nat
  stop : Nat
  deriving DecidableEq, Repr

namespace Span

def le (a b : Span) : Bool :=
  a.start < b.start || (a.start == b.start && a.stop ≤ b.stop)

/-- Joins the spans of an ordered list that touch or overlap the span `a` before them. -/
def joinOnto (a : Span) : List Span → List Span
  | [] => [a]
  | b :: bs =>
    if b.start ≤ a.stop then joinOnto ⟨a.start, max a.stop b.stop⟩ bs else a :: joinOnto b bs

/-- The ordered list of spans with those that touch or overlap made one. -/
def join : List Span → List Span
  | [] => []
  | a :: as => joinOnto a as

end Span

/-- The folded characters of a text, each with the index of the character that it comes from. -/
def foldWithOrigins (t : Text) : List (Char × Nat) :=
  t.zipIdx.flatMap fun p => (Text.foldChar p.1).map fun c => (c, p.2)

def originSpan? (origins : List Nat) (n i : Nat) : Option Span := do
  let first ← origins[i]?
  let last ← origins[i + n - 1]?
  return ⟨first, last + 1⟩

/-- Every occurrence of a term in a text that was folded with origins. -/
def termSpans (folded : List (Char × Nat)) (term : Text) : List Span :=
  let needle := Text.fold term
  if needle.isEmpty then []
  else
    (Text.occurrences needle (folded.map (·.1))).filterMap
      (originSpan? (folded.map (·.2)) needle.length)

/-- The places of the terms in a text, in order and apart from each other. Terms are looked for in
the folded text, and the places point into the text as it is. -/
def highlightSpans (t : Text) (terms : List Text) : List Span :=
  let folded := foldWithOrigins t
  Span.join ((terms.flatMap (termSpans folded)).mergeSort Span.le)

/-- What is put around a marked place, and whether the text in between is meant for HTML. -/
structure MarkStyle where
  openTag : Text := "<mark>".toList
  closeTag : Text := "</mark>".toList
  escape : Bool := false

namespace MarkStyle

def encode (s : MarkStyle) (t : Text) : Text :=
  if s.escape then Text.htmlEscape t else t

/-- Tags around the slices of a text at the given ranges, the text between them from the index
`position` on. -/
def markFrom (s : MarkStyle) (t : Text) (position : Int) : List (Int × Int) → Text
  | [] => s.encode (slice t position t.length)
  | (start, stop) :: rs =>
    s.encode (slice t position start) ++ s.openTag ++ s.encode (slice t start stop) ++
      s.closeTag ++ s.markFrom t stop rs

def mark (s : MarkStyle) (t : Text) (ranges : List (Int × Int)) : Text :=
  s.markFrom t 0 ranges

/-- The text with every term in it marked. -/
def highlight (s : MarkStyle) (t : Text) (terms : List Text) : Text :=
  s.mark t ((highlightSpans t terms).map fun p => ((p.start : Int), (p.stop : Int)))

/-- An excerpt without markup around the first term in a text, with every term in it marked. -/
def highlightSnippet (s : MarkStyle) (t : Text) (terms : List Text) (maxChars : Int) : Text :=
  let plain := stripMarkup t
  let anchor := (highlightSpans plain terms).head?.map fun p => (p.start : Int)
  s.highlight (snippet plain anchor maxChars) terms

end MarkStyle

namespace Clause

/-- The text that a clause asks for, unless it only filters. -/
def freeText? : Clause → Option Text
  | term t => some t.text
  | field f => if f.quoted then some f.value else none
  | _ => none

end Clause

/-- The texts of a list without those whose fold occurred before. -/
def distinctFolds (seen : List Text) : List Text → List Text
  | [] => []
  | t :: ts =>
    let folded := Text.fold t
    if seen.contains folded then distinctFolds seen ts else t :: distinctFolds (folded :: seen) ts

namespace Query

/-- The words, phrases and quoted field values of a query, once each. -/
def terms (q : Query) : List Text :=
  distinctFolds [] (q.clauses.filterMap Clause.freeText?)

end Query

end ArticleArchive
