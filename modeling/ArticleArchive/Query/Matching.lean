import ArticleArchive.Article.Basic
import ArticleArchive.Markup
import ArticleArchive.Query.Validity
import ArticleArchive.Text.Fold
import ArticleArchive.Text.Numeral
import ArticleArchive.Text.Occurrence

namespace ArticleArchive

/-- The texts of an article as search sees them: without markup and with case folded. -/
structure SearchText where
  title : Text
  content : Text
  summary : Text
  deriving DecidableEq

namespace SearchText

def ofArticle (a : Article) : SearchText where
  title := Text.fold a.title
  content := Text.fold (stripMarkup a.content)
  summary := Text.fold (stripMarkup a.summary)

def contains (s : SearchText) (term : Text) : Bool :=
  Text.occursIn term s.title || Text.occursIn term s.content || Text.occursIn term s.summary

end SearchText

/-- A value of a query that has no problems can be read; these are the ways in which one that was
not checked cannot. -/
inductive MatchError where
  | unreadableDate
  | unreadableNumber
  | unknownMark
  deriving DecidableEq, Repr

namespace Comparison

def holds? (op : Comparison) (x y : Int) : Option Bool :=
  match op with
  | gt => some (decide (y < x))
  | ge => some (decide (y ≤ x))
  | lt => some (decide (x < y))
  | le => some (decide (x ≤ y))
  | eq => some (decide (x = y))
  | other _ => none

end Comparison

namespace Query

def readDay (t : Text) : Except MatchError Date :=
  match Date.ofText? t with
  | some d => .ok d
  | none => .error .unreadableDate

def readNumber (t : Text) : Except MatchError Int :=
  match Text.integer? t with
  | some i => .ok i
  | none => .error .unreadableNumber

def compare (op : Comparison) (x y : Int) : Except MatchError Bool :=
  match op.holds? x y with
  | some b => .ok b
  | none => .error .unknownMark

end Query

namespace RangeClause

/-- A day that cannot be read equals no day and cannot be compared otherwise. -/
def compareDay (op : Comparison) (day : Date) (value : Text) : Except MatchError Bool :=
  match op, Date.ofText? value with
  | .other _, _ => .error .unknownMark
  | .eq, none => .ok false
  | _, none => .error .unreadableDate
  | op, some d => Query.compare op day.rank d.rank

def accepts (r : RangeClause) (a : Article) : Except MatchError Bool :=
  match r.quantity with
  | .date => compareDay r.op a.createdAt.date r.value
  | .views =>
    match r.op with
    | .other _ => .error .unknownMark
    | op => do Query.compare op a.viewCount (← Query.readNumber r.value)

end RangeClause

namespace FieldClause

def accepts (f : FieldClause) (a : Article) (s : SearchText) : Bool :=
  let value := Text.fold f.value
  match FieldName.ofText? f.name with
  | some .title => Text.occursIn value s.title
  | some .content => Text.occursIn value s.content
  | some .category => a.category.any fun c => Text.fold c.name == value
  | none => false

end FieldClause

namespace DateFilter

def afterStart (f : DateFilter) (day : Date) : Except MatchError Bool :=
  match f.start with
  | none => .ok true
  | some t => do
    let start ← Query.readDay t
    return start.rank < day.rank || (day.rank == start.rank && f.startIncluded)

def beforeStop (f : DateFilter) (day : Date) : Except MatchError Bool :=
  match f.stop with
  | none => .ok true
  | some t => do
    let stop ← Query.readDay t
    return day.rank < stop.rank || (day.rank == stop.rank && f.stopIncluded)

def contains (f : DateFilter) (day : Date) : Except MatchError Bool := do
  if ← f.afterStart day then f.beforeStop day else return false

end DateFilter

namespace Clause

/-- Whether a day lies in the interval from `low` to `high`, both included. -/
def dayWithin (low high : Text) (day : Date) : Except MatchError Bool := do
  let l ← Query.readDay low
  if day.rank < l.rank then return false
  let h ← Query.readDay high
  return day.rank ≤ h.rank

def accepts (a : Article) (s : SearchText) : Clause → Except MatchError Bool
  | term t => .ok (s.contains (Text.fold t.text))
  | field f => .ok (f.accepts a s)
  | range r => r.accepts a
  | dates low high => dayWithin low high a.createdAt.date
  | or l r => do if ← l.accepts a s then return true else r.accepts a s

end Clause

namespace Query

/-- Whether every test passes; the first that fails ends the run. -/
def all {α : Type} (test : α → Except MatchError Bool) : List α → Except MatchError Bool
  | [] => .ok true
  | x :: xs => do if ← test x then all test xs else return false

def isExcluded (q : Query) (s : SearchText) : Bool :=
  q.excluded.any fun t => s.contains (Text.fold t.text)

/-- Whether a query asks for an article. Filters are tried first, then the required clauses, then
the exclusions, and the first that settles the question ends the test. -/
def accepts (q : Query) (a : Article) : Except MatchError Bool := do
  let s := SearchText.ofArticle a
  if !(q.fields.all fun f => f.accepts a s) then return false
  if !(← q.dates.contains a.createdAt.date) then return false
  if !(← all (fun r => RangeClause.accepts r a) q.views) then return false
  if !(← all (Clause.accepts a s) q.required) then return false
  return !q.isExcluded s

/-- The articles of a corpus that a query asks for, in the order of the corpus. -/
def execute (q : Query) : List Article → Except MatchError (List Article)
  | [] => .ok []
  | a :: as => do
    let found ← q.accepts a
    let rest ← execute q as
    return if found then a :: rest else rest

end Query

end ArticleArchive
