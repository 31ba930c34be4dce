import ArticleArchive.Proofs.Query.Faultless
import ArticleArchive.Proofs.Query.Form
import ArticleArchive.Service.Archive

namespace ArticleArchive

/-- A corpus that is handed out article by article and may fail on the way. -/
inductive Supply (ε : Type) where
  | done
  | failed (e : ε)
  | next (a : Article) (rest : Supply ε)

/-- Why a search has no answer when its corpus is handed out. -/
inductive SupplyError (ε : Type) where
  | supply (e : ε)
  | search (e : SearchError)

def Supply.ofList {ε : Type} : List Article → Supply ε
  | [] => done
  | a :: as => next a (ofList as)

variable {ε : Type}

/-- An article is asked for once those before it are tested. -/
def Query.executeFrom (q : Query) : Supply ε → Except (SupplyError ε) (List Article)
  | .done => .ok []
  | .failed e => .error (.supply e)
  | .next a s => do
    let found ← (q.accepts a).mapError fun e => .search (.matching e)
    let rest ← executeFrom q s
    return if found then a :: rest else rest

theorem Query.executeFrom_ofList (q : Query) (corpus : List Article) :
    q.executeFrom (Supply.ofList (ε := ε) corpus) =
      (q.execute corpus).mapError fun e => .search (.matching e) := by
  induction corpus with
  | nil => rfl
  | cons a as ih =>
    rw [Supply.ofList, executeFrom, ih, execute]
    cases q.accepts a with
    | error e => rfl
    | ok b => cases q.execute as <;> rfl

namespace SearchOutcome

/-- The outcome for a query text over a corpus that is handed out. -/
def ofSupply (raw : Text) (s : Supply ε) : Except (SupplyError ε) SearchOutcome :=
  if Query.isBlankText raw then .ok {}
  else
    match Query.compile raw with
    | .error f => .error (.search (.query f))
    | .ok q => do
      let found ← q.executeFrom s
      match arrange? q.sort q.terms found with
      | some articles =>
        return { query := some q, articles, sort := q.effectiveSort, terms := q.terms }
      | none => throw (.search .unknownSortKey)

theorem ofSupply_ofList (raw : Text) (corpus : List Article) :
    ofSupply raw (Supply.ofList (ε := ε) corpus) = (ofText raw corpus).mapError .search := by
  unfold ofSupply ofText
  by_cases hraw : Query.isBlankText raw = true
  · simp [hraw, Except.mapError]
  · cases Query.compile raw with
    | error f => simp [hraw, Except.mapError]
    | ok q =>
      simp only [hraw, Bool.false_eq_true, ite_false, ofQuery, Query.executeFrom_ofList]
      cases q.execute corpus with
      | error e => rfl
      | ok found =>
        simp only [Except.mapError, bind, Except.bind]
        cases arrange? q.sort q.terms found <;> rfl

theorem ofQuery_ne_query (q : Query) (corpus : List Article) (f : Failure) :
    ofQuery q corpus ≠ .error (.query f) := by
  intro h
  rcases bind_eq_error_iff.mp h with h | ⟨found, -, h⟩
  · obtain ⟨e, -, he⟩ := mapError_eq_error_iff.mp h
    simp at he
  · dsimp only at h
    split at h
    · simp [pure, Except.pure] at h
    · simp [throw, throwThe, MonadExceptOf.throw] at h

theorem ofText_eq_query_iff {raw : Text} (corpus : List Article) {f : Failure} :
    ofText raw corpus = .error (.query f) ↔
      Query.isBlankText raw = false ∧ Query.compile raw = .error f := by
  unfold ofText
  by_cases hraw : Query.isBlankText raw = true
  · simp [hraw]
  · cases hq : Query.compile raw with
    | error e => simp [hraw]
    | ok q => simp [hraw, ofQuery_ne_query]

theorem ofSupply_of_compile {raw : Text} {f : Failure} (hraw : Query.isBlankText raw = false)
    (hf : Query.compile raw = .error f) (s : Supply ε) :
    ofSupply raw s = .error (.search (.query f)) := by
  simp [ofSupply, hraw, hf]

end SearchOutcome

namespace Query

theorem check_eq_ok_iff {raw : Text} {issues : List Issue} :
    check raw = .ok issues ↔
      (isBlankText raw = true ∨ ∃ q, compile raw = .ok q) ∧ issues = [] ∨
        isBlankText raw = false ∧ ∃ e, compile raw = .error (.rejected e) ∧ e.issues = issues := by
  unfold check
  by_cases hraw : isBlankText raw = true
  · simp [hraw, eq_comm]
  · cases hq : compile raw with
    | ok q => simp [hraw, eq_comm]
    | error f =>
      cases f with
      | rejected e => simp [hraw]
      | fault f => simp [hraw]

theorem issues_ne_nil_of_compile {raw : Text} {e : Rejection}
    (h : compile raw = .error (.rejected e)) : e.issues ≠ [] := by
  rcases compile_eq_rejected_iff.mp h with ⟨m, -, rfl⟩ | ⟨q, -, hq, rfl⟩
  · exact List.cons_ne_nil _ _
  · simpa [Rejection.issues] using hq

end Query

namespace Archive

theorem outcome_eq_refused_iff (a : Archive) (now : DateTime) {r : SearchRequest} {e : Refusal} :
    a.outcome now r = .error (.refused e) ↔
      ∃ m, e = .query m ∧ Query.isBlankText r.query = false ∧
        Query.compile r.query = .error (.rejected m) := by
  simp only [← SearchOutcome.ofText_eq_query_iff
    (a.visible now r.language (r.includeFuture.getD a.settings.includeFuture))]
  unfold outcome
  dsimp only
  split
  · rename_i o ho
    simp [ho]
  · rename_i m hm
    simp [hm, eq_comm]
  · rename_i f hne hf
    constructor
    · intro h
      simp at h
    · rintro ⟨m, -, hm⟩
      rw [hf, Except.error.injEq] at hm
      exact absurd hm (hne m)

theorem pageOf_ne_refused (settings : Settings) (r : SearchRequest) (o : SearchOutcome)
    (e : Refusal) : pageOf settings r o ≠ .error (.refused e) := by
  intro h
  rcases bind_eq_error_iff.mp h with h | ⟨hits, -, h⟩
  · obtain ⟨es, -, he⟩ := mapError_eq_error_iff.mp h
    simp at he
  · split at h
    · simp [throw, throwThe, MonadExceptOf.throw] at h
    · simp [pure, Except.pure] at h

theorem search_eq_refused_iff {a : Archive} {now : DateTime} {r : SearchRequest} {e : Refusal} :
    a.search now r = .error (.refused e) ↔
      ∃ m, e = .query m ∧ Query.isBlankText r.query = false ∧
        Query.compile r.query = .error (.rejected m) := by
  rw [← outcome_eq_refused_iff a now]
  constructor
  · intro h
    rcases bind_eq_error_iff.mp h with h | ⟨o, -, h⟩
    · exact h
    · exact absurd h (pageOf_ne_refused _ _ _ _)
  · intro h
    exact bind_eq_error_iff.mpr (.inl h)

/-- Every query text can be checked. If nothing is wrong with it, no search for it is refused; if
something is, every search for it is refused, with the reasons that the check reports. So it is
when articles are handed out one by one, even if the first of them never comes. The code of the
refusal tells a mistake in form from mistakes in meaning. -/
theorem search_verdict_eq_check (query : Text) :
    ∃ c, check query = .ok c ∧ c.query = query ∧
      (c.isValid = true ∧ (∀ (a : Archive) (now : DateTime) (r : SearchRequest) (e : Refusal),
          a.search now { r with query } ≠ .error (.refused e)) ∨
        c.isValid = false ∧ ∃ m,
          ((∃ x, Query.parse query = .error (.malformed x) ∧ m = .malformed x ∧
              (Refusal.query m).code = "INVALID_SEARCH_SYNTAX".toList) ∨
            ∃ q, Query.parse query = .ok q ∧ m = .invalid q.problems ∧
              (Refusal.query m).code = "INVALID_SEARCH_PARAMETERS".toList) ∧
          (Refusal.query m).details = c.issues.map Issue.toJson ∧
          (∀ (a : Archive) (now : DateTime) (r : SearchRequest),
            a.search now { r with query } = .error (.refused (.query m))) ∧
          ∀ {ε : Type} (s : Supply ε),
            SearchOutcome.ofSupply query s = .error (.search (.query (.rejected m)))) ∧
      ∀ {ε : Type} (corpus : List Article),
        SearchOutcome.ofSupply query (Supply.ofList (ε := ε) corpus) =
          (SearchOutcome.ofText query corpus).mapError .search := by
  have hlist {ε : Type} (corpus : List Article) :=
    SearchOutcome.ofSupply_ofList (ε := ε) query corpus
  by_cases hraw : Query.isBlankText query = true
  · refine ⟨⟨query, []⟩, ?_, rfl, .inl ⟨rfl, fun a now r e h => ?_⟩, hlist⟩
    · exact map_eq_ok_iff.mpr ⟨[], Query.check_eq_ok_iff.mpr (.inl ⟨.inl hraw, rfl⟩), rfl⟩
    · obtain ⟨m, -, hb, -⟩ := search_eq_refused_iff.mp h
      simp [hraw] at hb
  · have hblank : Query.isBlankText query = false := by simpa using hraw
    -- a query that is not blank is compiled or rejected, and nothing else
    rcases (Query.noFault_compile query).ok_or_rejected with ⟨q, hq⟩ | ⟨m, hm⟩
    · refine ⟨⟨query, []⟩, ?_, rfl, .inl ⟨rfl, fun a now r e h => ?_⟩, hlist⟩
      · exact map_eq_ok_iff.mpr ⟨[], Query.check_eq_ok_iff.mpr (.inl ⟨.inr ⟨q, hq⟩, rfl⟩), rfl⟩
      · obtain ⟨m, -, -, hm⟩ := search_eq_refused_iff.mp h
        simp [hq] at hm
    · have hcheck := Query.check_eq_ok_iff.mpr (.inr ⟨hblank, m, hm, rfl⟩)
      refine ⟨⟨query, m.issues⟩, map_eq_ok_iff.mpr ⟨_, hcheck, rfl⟩, rfl, .inr ⟨?_, m, ?_, rfl,
        fun a now r => ?_, fun s => ?_⟩, hlist⟩
      · simpa [QueryCheck.isValid] using Query.issues_ne_nil_of_compile hm
      · rcases Query.compile_eq_rejected_iff.mp hm with ⟨x, hx, rfl⟩ | ⟨q, hq, -, rfl⟩
        · exact .inl ⟨x, hx, rfl, rfl⟩
        · exact .inr ⟨q, hq, rfl, rfl⟩
      · exact search_eq_refused_iff.mpr ⟨m, rfl, hblank, hm⟩
      · exact SearchOutcome.ofSupply_of_compile hblank hm s

end Archive

end ArticleArchive
