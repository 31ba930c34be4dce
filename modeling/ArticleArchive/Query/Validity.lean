import ArticleArchive.Calendar.Date
import ArticleArchive.Query.Basic
import ArticleArchive.Text.Similarity

namespace ArticleArchive

/-- How alike two names have to be, in a hundred, for one to be suggested for the other. -/
def suggestionPercent : Nat := 70

def suggest? (name : Text) (choices : List Text) : Option Text :=
  Text.closest? suggestionPercent name choices

namespace Problem

/-- An empty suggestion is no hint. -/
def hint? (name : Text) (choices : List Text) : Option Text :=
  (suggest? name choices).filter fun h => !h.isEmpty

def ofField (name : Text) : List Problem :=
  match FieldName.ofText? name with
  | some _ => []
  | none => [.unknownField name (hint? name (FieldName.all.map FieldName.text))]

def ofSortKey (name : Text) : List Problem :=
  match SortKey.ofText? name with
  | some _ => []
  | none => [.unknownSortKey name (hint? name (SortKey.names.map (·.1)))]

def ofDate (value : Text) : List Problem :=
  match Date.ofText? value with
  | some _ => []
  | none => [.invalidDate value]

/-- A day given as both ends is complained about once. -/
def ofInterval (low high : Text) : List Problem :=
  if high = low then ofDate low
  else
    ofDate low ++ ofDate high ++
      match Date.ofText? low, Date.ofText? high with
      | some l, some h => if h.rank < l.rank then [.invalidRange low high] else []
      | _, _ => []

def isNumber (value : Text) : Bool :=
  !value.isEmpty && value.all Char.isDigit

def ofNumber (value : Text) : List Problem :=
  if isNumber value then [] else [.invalidNumber value]

end Problem

namespace Clause

def problems : Clause → List Problem
  | field f => Problem.ofField f.name
  | dates low high => Problem.ofInterval low high
  | range r =>
    match r.quantity with
    | .date => Problem.ofDate r.value
    | .views => Problem.ofNumber r.value
  | _ => []

end Clause

namespace DateFilter

def problems (f : DateFilter) : List Problem :=
  match f.start, f.stop with
  | some low, some high => Problem.ofInterval low high
  | some low, none => Problem.ofDate low
  | none, some high => Problem.ofDate high
  | none, none => []

end DateFilter

namespace SortSpec

def problems (s : SortSpec) : List Problem :=
  Problem.ofSortKey s.key

end SortSpec

namespace Query

def problems (q : Query) : List Problem :=
  q.clauses.flatMap Clause.problems ++ q.dates.problems ++ q.sort.elim [] SortSpec.problems

def compile (raw : Text) : Except Failure Query := do
  let q ← parse raw
  match q.problems with
  | [] => return q
  | ps => throw (.rejected (.invalid ps))

def isBlankText (t : Text) : Bool :=
  t.all Text.isBlank

/-- All that is wrong with a query text; a blank text is no query and nothing is wrong with it. -/
def check (raw : Text) : Except Fault (List Issue) :=
  if isBlankText raw then .ok []
  else
    match compile raw with
    | .ok _ => .ok []
    | .error (.rejected r) => .ok r.issues
    | .error (.fault f) => .error f

end Query

end ArticleArchive
