import ArticleArchive.Query.Clause
import ArticleArchive.Query.Lexeme

namespace ArticleArchive

/-- Clauses that all have to hold, with those at the top level that are filters kept apart: one
clause a field, one interval of days, and the comparisons of views. -/
structure Query where
  required : List Clause := []
  excluded : List Term := []
  fields : List FieldClause := []
  dates : DateFilter := {}
  views : List RangeClause := []
  sort : Option SortSpec := none
  deriving DecidableEq, Repr

/-- What the token before the current one was. -/
inductive Neighbour where
  | none
  | connective
  | clause
  | other
  deriving DecidableEq, Repr

/-- The clauses read so far, the latest first, and the connective that waits for its right side.
`OR` joins the clause right before it and the clause right after it, so that `a b OR c` asks for `a`
and for one of `b` and `c`. -/
structure Chain where
  clauses : List Clause := []
  excluded : List Term := []
  sort : Option SortSpec := none
  pending : Option Connective := none
  before : Neighbour := .none
  deriving DecidableEq, Repr

namespace Chain

/-- A connective follows a clause or, if it is `AND`, anything but a connective. -/
def pushConnective (s : Chain) (c : Connective) : Except Failure Chain :=
  if s.before = .none ∨ s.before = .connective ∨ (c = .or ∧ s.before ≠ .clause) then
    .error (.malformed (.danglingOperator c))
  else .ok { s with pending := some c, before := .connective }

def pushSort (s : Chain) (key direction : Text) : Except Failure Chain :=
  if s.sort.isSome then
    .error (.malformed (.conflictingSort (Token.sort key direction).describe))
  else .ok { s with sort := some ⟨key, direction⟩, pending := none, before := .other }

/-- Words and phrases can be excluded, nothing else. -/
def pushExclusion (s : Chain) (t : Token) : Except Failure Chain :=
  let push (term : Term) : Except Failure Chain :=
    .ok { s with excluded := term :: s.excluded, pending := none, before := .other }
  match t with
  | .word text => push ⟨text, false⟩
  | .phrase text => push ⟨text, true⟩
  | t => .error (.malformed (.invalidExclusion ('-' :: t.describe)))

def pushClause (s : Chain) (c : Clause) : Except Failure Chain :=
  match s.pending with
  | some .or =>
    match s.clauses with
    | [] => .error (.fault .emptyChain)
    | d :: ds => .ok { s with clauses := .or d c :: ds, pending := none, before := .clause }
  | _ => .ok { s with clauses := c :: s.clauses, pending := none, before := .clause }

def push (s : Chain) (t : Token) : Except Failure Chain :=
  match t with
  | .connective c => s.pushConnective c
  | t =>
    if s.pending = some .or ∧ t.isClause = false then
      .error (.malformed (.danglingOperator .or))
    else
      match t with
      | .sort key direction => s.pushSort key direction
      | .exclude inner => s.pushExclusion inner
      | t =>
        match Clause.ofToken? t with
        | some c => s.pushClause c
        | none => .error (.fault .unknownToken)

/-- A chain is complete when no connective waits. -/
def finish (s : Chain) : Except Failure Chain :=
  match s.pending with
  | some c => .error (.malformed (.danglingOperator c))
  | none => .ok s

def ofTokens (ts : List Token) : Except Failure Chain := do
  let s ← ts.foldlM push {}
  s.finish

end Chain

namespace Query

def addClause (q : Query) (c : Clause) : Except SyntaxError Query :=
  match c with
  | .field f =>
    if q.fields.any (·.name = f.name) then .error (.duplicateField f.name)
    else .ok { q with fields := q.fields ++ [f] }
  | .dates low high => (q.dates.setBoth low high).map fun d => { q with dates := d }
  | .range r =>
    match r.quantity with
    | .date => (q.dates.addComparison r.op r.value).map fun d => { q with dates := d }
    | .views => .ok { q with views := q.views ++ [r] }
  | c => .ok { q with required := q.required ++ [c] }

def ofTokens (ts : List Token) : Except Failure Query := do
  let s ← Chain.ofTokens ts
  let start : Query := { excluded := s.excluded.reverse, sort := s.sort }
  (s.clauses.reverse.foldlM addClause start).mapError .malformed

/-- The query that a text spells, whether it makes sense or not. -/
def parse (raw : Text) : Except Failure Query := do
  let ls ← Lexeme.ofText raw
  ofTokens (ls.map (·.token))

def effectiveSort (q : Query) : SortSpec :=
  q.sort.getD .newestFirst

/-- Every clause but the dates at the top level, those joined by `OR` one by one. -/
def clauses (q : Query) : List Clause :=
  q.required.flatMap Clause.leaves ++ q.fields.map .field ++ q.views.map .range

end Query

end ArticleArchive
