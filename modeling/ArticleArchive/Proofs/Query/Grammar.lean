import ArticleArchive.Proofs.Query.Neighbours
import ArticleArchive.Proofs.Query.Room

namespace ArticleArchive

namespace Token

/-- The clause tokens that have no `OR` next to them; `joined` says whether `OR` stands before the
first token. -/
def aloneAfter (joined : Bool) : List Token → List Token
  | [] => []
  | t :: ts =>
    let rest := aloneAfter (t == .connective .or) ts
    if t.isClause && !joined && ts.head? != some (.connective .or) then t :: rest else rest

def alone (ts : List Token) : List Token :=
  aloneAfter false ts

def fieldName? : Token → Option Text
  | .field name _ _ => some name
  | _ => none

/-- Whether a token bounds the days of a query from below. -/
def boundsStart : Token → Bool
  | .dates _ _ => true
  | .range name op _ => name == dateField && op.boundsStart
  | _ => false

def boundsStop : Token → Bool
  | .dates _ _ => true
  | .range name op _ => name == dateField && op.boundsStop
  | _ => false

/-- The token lists that are queries. -/
structure Grammatical (ts : List Token) : Prop extends Complete ts where
  fields : ((alone ts).filterMap fieldName?).Nodup
  starts : (alone ts).countP boundsStart ≤ 1
  stops : (alone ts).countP boundsStop ≤ 1

end Token

def Token.single? : List Token → Option Token
  | [t] => some t
  | _ => none

namespace Token

variable {ts : List Token}

theorem head?_ne_or {t : Token} (hc : t.isClause = false) (hj : (t :: ts).IsChain OrJoins) :
    ts.head? ≠ some (.connective .or) := by
  intro h
  obtain ⟨us, rfl⟩ := List.head?_eq_some_iff.mp h
  have := (List.isChain_cons_cons.mp hj).1.2 rfl
  simp [hc] at this

theorem joinsNext_eq (hlast : ∀ t ∈ ts.getLast?, t.isConnective = false)
    (hj : ts.IsChain OrJoins) : joinsNext ts = (ts.head? == some (.connective .or)) := by
  match ts with
  | [] => rfl
  | [u] => cases u <;> simp_all [joinsNext, isConnective]
  | u :: v :: ts =>
    have hv := (List.isChain_cons_cons.mp hj).1.1
    by_cases hu : u = .connective .or
    · subst hu
      simp [joinsNext, hv rfl]
    · rw [List.head?_cons, beq_eq_false_iff_ne.mpr (by simpa using hu)]
      unfold joinsNext
      split
      · rename_i he
        exact absurd (List.cons.inj he).1 hu
      · rfl

/-- The clauses that stand alone are the runs of one, the first run left out if `OR` joins it to a
clause before the list. -/
theorem aloneAfter_eq (joined : Bool) (hlast : ∀ t ∈ ts.getLast?, t.isConnective = false)
    (hj : ts.IsChain OrJoins) (hjoined : joined = true → ∀ t ∈ ts.head?, t.isClause = true) :
    aloneAfter joined ts =
      (if joined || ts.head? == some (.connective .or) then (orRuns ts).tail
        else orRuns ts).filterMap single? := by
  induction ts generalizing joined with
  | nil => cases joined <;> rfl
  | cons t ts ih =>
    have hlast' : ∀ t ∈ ts.getLast?, t.isConnective = false := by
      intro u hu
      exact hlast u (by rw [List.getLast?_cons, hu]; rfl)
    have hj' : ts.IsChain OrJoins := hj.tail
    by_cases ht : t.isClause = true
    · have hor : t ≠ .connective .or := by
        rintro rfl
        simp [isClause] at ht
      rw [aloneAfter, beq_eq_false_iff_ne.mpr hor, ih false hlast' hj' (by simp), orRuns, if_pos ht,
        joinsNext_eq hlast' hj']
      by_cases hnext : ts.head? = some (.connective .or)
      · -- `t` is in a run of more than one, which counts no more than if it were left out
        have hjoins : joinsNext ts = true := by simp [joinsNext_eq hlast' hj', hnext]
        obtain ⟨u, us, rfl, hu⟩ := exists_of_joinsNext hjoins
        obtain ⟨r, rs, hr⟩ := exists_orRuns_cons hu us
        have hlong : single? (t :: u :: r) = none := rfl
        rw [orRuns_of_not_isClause rfl, hr]
        cases joined <;> simp [hor, consRun, hlong]
      · cases joined <;> simp [ht, hor, hnext, single?]
    · have ht : t.isClause = false := by simpa using ht
      obtain rfl : joined = false := by
        cases joined with
        | false => rfl
        | true => simp [hjoined rfl t rfl] at ht
      rw [orRuns_of_not_isClause ht]
      by_cases hor : t = .connective .or
      · subst hor
        have hclause : ∀ u ∈ ts.head?, u.isClause = true := by
          intro u hu
          obtain ⟨us, rfl⟩ := List.head?_eq_some_iff.mp hu
          exact (List.isChain_cons_cons.mp hj).1.1 rfl
        have hrest := ih true hlast' hj' fun _ => hclause
        simp [aloneAfter, ht, hrest]
      · have hnext := head?_ne_or ht hj
        have hrest := ih false hlast' hj' (by simp)
        rw [aloneAfter, beq_eq_false_iff_ne.mpr hor, hrest]
        simp [ht, hor, hnext]

theorem alone_eq (h : Complete ts) : alone ts = (orRuns ts).filterMap single? := by
  have hhead : ts.head? ≠ some (.connective .or) := fun hor => by
    simpa [isConnective] using h.first _ hor
  rw [alone, aloneAfter_eq false h.last h.joins (by simp), beq_eq_false_iff_ne.mpr hhead]
  rfl

end Token

namespace Clause

open Token (orRuns single? alone)

theorem exists_or_of_ofRun? {t u : Token} {us : List Token} {c : Clause}
    (h : ofRun? (t :: u :: us) = some c) : ∃ l r, c = .or l r := by
  obtain ⟨vs, v, hv⟩ := List.eq_nil_or_concat (u :: us) |>.resolve_left (List.cons_ne_nil _ _)
  rw [hv, List.concat_eq_append, ← List.cons_append, ofRun?_append (List.cons_ne_nil _ _)] at h
  obtain ⟨l, -, h⟩ := Option.bind_eq_some_iff.mp h
  obtain ⟨r, -, rfl⟩ := Option.map_eq_some_iff.mp h
  exact ⟨l, r, rfl⟩

/-- What is read off the clauses of runs, but off no alternative, is read off the tokens of the runs
of one. -/
theorem filterMap_ofRuns {β : Type} {f : Clause → Option β} {g : Token → Option β}
    (hor : ∀ l r, f (.or l r) = none) (hfg : ∀ t c, ofToken? t = some c → f c = g t)
    {runs : List (List Token)} {cs : List Clause} (h : runs.map ofRun? = cs.map some) :
    cs.filterMap f = (runs.filterMap single?).filterMap g := by
  induction runs generalizing cs with
  | nil =>
    obtain rfl : cs = [] := by simpa using h.symm
    rfl
  | cons run runs ih =>
    obtain ⟨c, cs, rfl⟩ : ∃ c cs', cs = c :: cs' := by
      cases cs with
      | nil => simp at h
      | cons c cs => exact ⟨c, cs, rfl⟩
    obtain ⟨hc, hcs⟩ := List.cons.inj h
    rw [List.filterMap_cons, List.filterMap_cons, ih hcs]
    match run with
    | [] => simp [ofRun?] at hc
    | [t] =>
      rw [ofRun?_singleton] at hc
      rw [hfg t c hc]
      rfl
    | t :: u :: us =>
      obtain ⟨l, r, rfl⟩ := exists_or_of_ofRun? hc
      rw [hor]
      rfl

theorem fieldName?_ofToken? {t : Token} {c : Clause} (h : ofToken? t = some c) :
    c.fieldName? = t.fieldName? := by
  cases t <;> simp [ofToken?] at h <;> subst h <;> rfl

theorem bounds_ofToken? {t : Token} {c : Clause} (h : ofToken? t = some c) :
    c.boundsStart = t.boundsStart ∧ c.boundsStop = t.boundsStop := by
  have hdate (name : Text) : (Quantity.ofName name == .date) = (name == dateField) := by
    unfold Quantity.ofName
    split <;> simp [*]
  cases t <;> simp [ofToken?] at h <;> subst h <;>
    simp [boundsStart, boundsStop, Token.boundsStart, Token.boundsStop, hdate]

end Clause

namespace Token

variable {ts : List Token}

theorem countP_ofRuns {p : Clause → Bool} {q : Token → Bool} (hor : ∀ l r, p (.or l r) = false)
    (hpq : ∀ t c, Clause.ofToken? t = some c → p c = q t) {runs : List (List Token)}
    {cs : List Clause} (h : runs.map Clause.ofRun? = cs.map some) :
    cs.countP p = (runs.filterMap single?).countP q := by
  have hcount {α : Type} (p : α → Bool) (l : List α) :
      l.countP p = (l.filterMap fun a => if p a then some () else none).length := by
    rw [List.length_filterMap_eq_countP]
    exact List.countP_congr fun a _ => by cases p a <;> simp
  rw [hcount p, hcount q, Clause.filterMap_ofRuns (fun l r => by rw [hor]; rfl)
    (fun t c hc => by rw [hpq t c hc]) h]

/-- There is room for the clauses of a chain if nothing is given twice by the tokens that stand
alone. -/
theorem hasRoom_iff_of_follows {s : Chain} (hf : Chain.Follows ts s) (hc : Complete ts)
    (terms : List Term) (sort : Option SortSpec) :
    Query.HasRoom { excluded := terms, sort := sort } s.clauses.reverse ↔
      ((alone ts).filterMap fieldName?).Nodup ∧ (alone ts).countP boundsStart ≤ 1 ∧
        (alone ts).countP boundsStop ≤ 1 := by
  rw [Query.hasRoom_iff, alone_eq hc,
    Clause.filterMap_ofRuns (fun _ _ => rfl) (fun _ _ => Clause.fieldName?_ofToken?) hf.clauses,
    countP_ofRuns (fun _ _ => rfl) (fun _ _ h => (Clause.bounds_ofToken? h).1) hf.clauses,
    countP_ofRuns (fun _ _ => rfl) (fun _ _ h => (Clause.bounds_ofToken? h).2) hf.clauses]
  simp

theorem ofTokens_cases (h : .unknown ∉ ts) :
    (Grammatical ts ∧ ∃ q, Query.ofTokens ts = .ok q) ∨
      ¬ Grammatical ts ∧ ∃ e : SyntaxError,
        Query.ofTokens ts = .error (.malformed e) ∧ e.isParseError = true := by
  cases hs : Chain.ofTokens ts with
  | error e =>
    have hno : ¬ Grammatical ts := by
      intro hg
      obtain ⟨s, hok⟩ := (Chain.exists_ofTokens_iff h).mpr hg.toComplete
      simp [hs] at hok
    rcases Chain.ofTokens_eq_error hs with ⟨m, rfl, hm⟩ | ⟨-, hu⟩
    · exact .inr ⟨hno, m, bind_eq_error_iff.mpr (.inl hs), hm⟩
    · exact absurd hu h
  | ok s =>
    have hc := (Chain.exists_ofTokens_iff h).mp ⟨s, hs⟩
    let start : Query := { excluded := s.excluded.reverse, sort := s.sort }
    have hstart : (start.fields.map (·.name)).Nodup := List.nodup_nil
    have hrest : Query.ofTokens ts =
        (s.clauses.reverse.foldlM Query.addClause start).mapError .malformed := by
      rw [Query.ofTokens, hs]
      rfl
    -- the neighbours being right, what is left of the grammar is the room for the clauses
    have hgrammar : Grammatical ts ↔ start.HasRoom s.clauses.reverse := by
      rw [hasRoom_iff_of_follows (Chain.ofTokens_follows hs) hc]
      exact ⟨fun hg => ⟨hg.fields, hg.starts, hg.stops⟩,
        fun ⟨hfields, hstarts, hstops⟩ => ⟨hc, hfields, hstarts, hstops⟩⟩
    rw [hgrammar, hrest]
    rcases Query.foldlM_addClause_cases hstart s.clauses.reverse with
      ⟨hroom, q, hq⟩ | ⟨hroom, name, he⟩
    · exact .inl ⟨hroom, q, mapError_eq_ok_iff.mpr hq⟩
    · exact .inr ⟨hroom, .duplicateField name, mapError_eq_error_iff.mpr ⟨_, he, rfl⟩, rfl⟩

/-- Tokens are a query if and only if they are grammatical; otherwise they are refused for a mistake
in how they are put together. -/
theorem query_iff_grammatical (h : .unknown ∉ ts) :
    ((∃ q, Query.ofTokens ts = .ok q) ↔ Grammatical ts) ∧
      (¬ Grammatical ts → ∃ e : SyntaxError,
        Query.ofTokens ts = .error (.malformed e) ∧ e.isParseError = true) := by
  rcases ofTokens_cases h with ⟨hg, hq⟩ | ⟨hg, e, he, hp⟩
  · exact ⟨iff_of_true hq hg, fun hno => absurd hg hno⟩
  · exact ⟨iff_of_false (by simp [he]) hg, fun _ => ⟨e, he, hp⟩⟩

/-- A field may be given twice if `OR` takes in one of the two, and not otherwise. -/
theorem query_iff_grammatical_title_twice :
    let x : Token := .field "title".toList ['x'] false
    let y : Token := .field "title".toList ['y'] false
    Grammatical [x, .connective .or, y, .exclude (.word ['a']), y] ∧
      ∃ e : SyntaxError, Query.ofTokens [x, .connective .and, y] = .error (.malformed e) ∧
        e.isParseError = true := by
  intro x y
  refine ⟨(query_iff_grammatical (by simp [x, y])).1.mp ⟨_, rfl⟩,
    (query_iff_grammatical (by simp [x, y])).2 fun hg => ?_⟩
  simpa [x, y, alone, aloneAfter, isClause, fieldName?] using hg.fields

end Token

end ArticleArchive
