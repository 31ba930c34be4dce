import ArticleArchive.Query.Error

namespace ArticleArchive

structure Term where
  text : Text
  phrase : Bool
  deriving DecidableEq, Repr

structure FieldClause where
  name : Text
  value : Text
  quoted : Bool
  deriving DecidableEq, Repr

/-- The two quantities that a comparison can be about. -/
inductive Quantity where
  | date
  | views
  deriving DecidableEq, Repr

namespace Quantity

def text : Quantity → Text
  | date => dateField
  | views => "views".toList

/-- Every name but that of the date stands for the views. -/
def ofName (name : Text) : Quantity :=
  if name = dateField then date else views

end Quantity

structure RangeClause where
  quantity : Quantity
  op : Comparison
  value : Text
  deriving DecidableEq, Repr

inductive Clause where
  | term (t : Term)
  | field (f : FieldClause)
  | range (r : RangeClause)
  | dates (low high : Text)
  | or (left right : Clause)
  deriving DecidableEq, Repr

namespace Clause

def ofToken? : Token → Option Clause
  | .word t => some (.term ⟨t, false⟩)
  | .phrase t => some (.term ⟨t, true⟩)
  | .field name value quoted => some (.field ⟨name, value, quoted⟩)
  | .range name op value => some (.range ⟨.ofName name, op, value⟩)
  | .dates low high => some (.dates low high)
  | _ => none

/-- The clauses joined by `OR` in one clause, from left to right. -/
def leaves : Clause → List Clause
  | or l r => l.leaves ++ r.leaves
  | c => [c]

end Clause

theorem Token.isClause_iff_ofToken?_isSome (t : Token) :
    t.isClause = (Clause.ofToken? t).isSome := by
  cases t <;> rfl

/-- An interval of days with optional ends, which are kept as they were written. -/
structure DateFilter where
  start : Option Text := none
  stop : Option Text := none
  startIncluded : Bool := true
  stopIncluded : Bool := true
  deriving DecidableEq, Repr

namespace DateFilter

def isEmpty (f : DateFilter) : Bool :=
  f.start.isNone && f.stop.isNone

def setStart (f : DateFilter) (day : Text) (included : Bool) : Except SyntaxError DateFilter :=
  if f.start.isSome then .error (.duplicateField dateField)
  else .ok { f with start := some day, startIncluded := included }

def setStop (f : DateFilter) (day : Text) (included : Bool) : Except SyntaxError DateFilter :=
  if f.stop.isSome then .error (.duplicateField dateField)
  else .ok { f with stop := some day, stopIncluded := included }

def setBoth (f : DateFilter) (low high : Text) : Except SyntaxError DateFilter := do
  let f ← f.setStart low true
  f.setStop high true

/-- Sets the end that a comparison bounds; any mark but the four inequalities bounds both. -/
def addComparison (f : DateFilter) (op : Comparison) (day : Text) :
    Except SyntaxError DateFilter :=
  match op with
  | .gt => f.setStart day false
  | .ge => f.setStart day true
  | .lt => f.setStop day false
  | .le => f.setStop day true
  | _ => f.setBoth day day

end DateFilter

/-- A key and a direction as they were written. -/
structure SortSpec where
  key : Text
  direction : Text
  deriving DecidableEq, Repr

namespace SortSpec

def descending (s : SortSpec) : Bool :=
  s.direction == "desc".toList

def newestFirst : SortSpec :=
  ⟨dateField, "desc".toList⟩

end SortSpec

end ArticleArchive
