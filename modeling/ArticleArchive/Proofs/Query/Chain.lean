import ArticleArchive.Proofs.Query.Runs
import ArticleArchive.Proofs.Results

namespace ArticleArchive

/-- Whether a mistake is in how tokens are put together, and not in how one of them is written. -/
def SyntaxError.isParseError : SyntaxError → Bool
  | duplicateField _ | conflictingSort _ | invalidExclusion _ | danglingOperator _ => true
  | _ => false

/-- The clause of a run: its tokens' clauses, joined from the left. -/
def Clause.ofRun? : List Token → Option Clause
  | [] => none
  | t :: ts => do
    let c ← ofToken? t
    ts.foldlM (fun c u => (ofToken? u).map (or c)) c

namespace Token

/-- The word or phrase that a token excludes. -/
def excludedTerm? : Token → Option Term
  | .exclude (.word t) => some ⟨t, false⟩
  | .exclude (.phrase t) => some ⟨t, true⟩
  | _ => none

def sortSpec? : Token → Option SortSpec
  | .sort key direction => some ⟨key, direction⟩
  | _ => none

/-- The connective at the end of some tokens. -/
def pending? (ts : List Token) : Option Connective :=
  match ts.getLast? with
  | some (.connective c) => some c
  | _ => none

def neighbour (ts : List Token) : Neighbour :=
  match ts.getLast? with
  | none => .none
  | some (.connective _) => .connective
  | some t => if t.isClause then .clause else .other

end Token

namespace Clause

theorem ofRun?_singleton (t : Token) : ofRun? [t] = ofToken? t := by
  simp [ofRun?]

theorem ofRun?_append {run : List Token} (hne : run ≠ []) (t : Token) :
    ofRun? (run ++ [t]) = (ofRun? run).bind fun c => (ofToken? t).map (or c) := by
  obtain ⟨u, us, rfl⟩ := List.exists_cons_of_ne_nil hne
  simp [ofRun?, List.foldlM_append, Option.bind_assoc]

end Clause

namespace Chain

open Token (orRuns EndsJoined excludedTerm? sortSpec? pending?)

/-- `s` is the chain that the tokens `ts` build. -/
structure Follows (ts : List Token) (s : Chain) : Prop where
  clauses : (orRuns ts).map Clause.ofRun? = s.clauses.reverse.map some
  excluded : s.excluded.reverse = ts.filterMap excludedTerm?
  sort : s.sort = ts.findSome? sortSpec?
  pending : s.pending = pending? ts
  before : s.before = Token.neighbour ts
  endsJoined : s.pending = some .or → EndsJoined ts

theorem follows_nil : Follows [] {} where
  clauses := rfl
  excluded := rfl
  sort := rfl
  pending := rfl
  before := rfl
  endsJoined := nofun

/-- What a token does to a chain that accepts it. -/
theorem push_eq_ok {s s' : Chain} {t : Token} (h : s.push t = .ok s') :
    (∃ c, t = .connective c ∧ s.before ≠ .none ∧ s.before ≠ .connective ∧
      (c = .or → s.before = .clause) ∧
      s' = { s with pending := some c, before := .connective }) ∨
    s.pending ≠ some .or ∧
      ((∃ key direction, t = .sort key direction ∧ s.sort = none ∧
        s' = { s with sort := some ⟨key, direction⟩, pending := none, before := .other }) ∨
      ∃ term, excludedTerm? t = some term ∧
        s' = { s with excluded := term :: s.excluded, pending := none, before := .other }) ∨
    ∃ c, Clause.ofToken? t = some c ∧
      (s.pending ≠ some .or ∧
        s' = { s with clauses := c :: s.clauses, pending := none, before := .clause } ∨
      s.pending = some .or ∧ ∃ d ds, s.clauses = d :: ds ∧
        s' = { s with clauses := .or d c :: ds, pending := none, before := .clause }) := by
  cases t with
  | connective c =>
    simp only [push, pushConnective] at h
    split at h
    · simp at h
    · rename_i hb
      simp only [not_or, not_and, Decidable.not_not] at hb
      exact .inl ⟨c, rfl, hb.1, hb.2.1, hb.2.2, (Except.ok.inj h).symm⟩
  | sort key direction =>
    simp only [push, pushSort, Token.isClause, and_true] at h
    split at h
    · simp at h
    · rename_i hp
      split at h
      · simp at h
      · rename_i hs
        refine .inr (.inl ⟨hp, .inl ⟨key, direction, rfl, by simpa using hs, ?_⟩⟩)
        exact (Except.ok.inj h).symm
  | exclude k =>
    simp only [push, pushExclusion, Token.isClause, and_true] at h
    split at h
    · simp at h
    · rename_i hp
      refine .inr (.inl ⟨hp, .inr ?_⟩)
      split at h
      · exact ⟨_, rfl, (Except.ok.inj h).symm⟩
      · exact ⟨_, rfl, (Except.ok.inj h).symm⟩
      · simp at h
  | unknown =>
    simp only [push, Token.isClause, and_true, Clause.ofToken?] at h
    split at h <;> simp at h
  -- the clauses, which are all pushed in the same way
  | _ =>
    simp only [push, Token.isClause, Bool.true_eq_false, and_false, ite_false,
      Clause.ofToken?] at h
    refine .inr (.inr ⟨_, rfl, ?_⟩)
    unfold pushClause at h
    split at h
    · rename_i hp
      split at h
      · simp at h
      · rename_i d ds hd
        exact .inr ⟨hp, d, ds, hd, (Except.ok.inj h).symm⟩
    · rename_i hp
      exact .inl ⟨fun h => hp h, (Except.ok.inj h).symm⟩

theorem pending?_of_endsJoined {ts : List Token} (h : EndsJoined ts) :
    pending? ts = some .or := by
  obtain ⟨us, u, rfl, -⟩ := h
  simp [pending?]

theorem endsJoined_of_neighbour {ts : List Token} (h : Token.neighbour ts = .clause) :
    EndsJoined (ts ++ [.connective .or]) := by
  unfold Token.neighbour at h
  split at h
  · simp at h
  · simp at h
  · rename_i u _ hu
    split at h
    · rename_i hc
      obtain ⟨us, rfl⟩ := List.getLast?_eq_some_iff.mp hu
      exact ⟨us, u, by simp, hc⟩
    · simp at h

theorem orRuns_append_of_not_isClause {t : Token} (ht : t.isClause = false) (ts : List Token) :
    orRuns (ts ++ [t]) = orRuns ts := by
  rw [Token.orRuns_append (by simp [ht]) ?_, Token.orRuns_of_not_isClause ht]
  · exact List.append_nil _
  · cases t with
    | connective c => cases c <;> rfl
    | _ => rfl

theorem Follows.snoc_connective {ts : List Token} {s : Chain} (hf : Follows ts s) {c : Connective}
    (hc : c = .or → s.before = .clause) :
    Follows (ts ++ [.connective c]) { s with pending := some c, before := .connective } where
  clauses := by rw [orRuns_append_of_not_isClause rfl]; exact hf.clauses
  excluded := by simp [hf.excluded, excludedTerm?]
  sort := by simp [hf.sort, sortSpec?]
  pending := by simp [pending?]
  before := by simp [Token.neighbour]
  endsJoined := by
    intro h
    obtain rfl := Option.some.inj h
    exact endsJoined_of_neighbour (hf.before ▸ hc rfl)

theorem Follows.snoc_sort {ts : List Token} {s : Chain} (hf : Follows ts s) {key direction : Text}
    (hs : s.sort = none) :
    Follows (ts ++ [.sort key direction])
      { s with sort := some ⟨key, direction⟩, pending := none, before := .other } where
  clauses := by rw [orRuns_append_of_not_isClause rfl]; exact hf.clauses
  excluded := by simp [hf.excluded, excludedTerm?]
  sort := by simp [List.findSome?_append, ← hf.sort, hs, sortSpec?]
  pending := by simp [pending?]
  before := by simp [Token.neighbour, Token.isClause]
  endsJoined := nofun

theorem Follows.snoc_exclusion {ts : List Token} {s : Chain} (hf : Follows ts s) {t : Token}
    {term : Term} (ht : excludedTerm? t = some term) :
    Follows (ts ++ [t])
      { s with excluded := term :: s.excluded, pending := none, before := .other } := by
  obtain ⟨k, rfl⟩ : ∃ k, t = .exclude k := by
    cases t with
    | exclude k => exact ⟨k, rfl⟩
    | _ => simp [excludedTerm?] at ht
  exact {
    clauses := by rw [orRuns_append_of_not_isClause rfl]; exact hf.clauses
    excluded := by simp [hf.excluded, ht]
    sort := by simp [hf.sort, sortSpec?]
    pending := by simp [pending?]
    before := by simp [Token.neighbour, Token.isClause]
    endsJoined := nofun }

theorem Follows.snoc_clause {ts : List Token} {s : Chain} (hf : Follows ts s) {t : Token}
    {c : Clause} (ht : Clause.ofToken? t = some c) {clauses : List Clause}
    (hc : (orRuns (ts ++ [t])).map Clause.ofRun? = clauses.reverse.map some) :
    Follows (ts ++ [t]) { s with clauses := clauses, pending := none, before := .clause } := by
  have hclause : t.isClause = true := by rw [Token.isClause_iff_ofToken?_isSome, ht]; rfl
  have hplain : excludedTerm? t = none ∧ sortSpec? t = none ∧ pending? (ts ++ [t]) = none ∧
      Token.neighbour (ts ++ [t]) = .clause := by
    cases t <;> simp [Token.isClause] at hclause <;>
      simp [excludedTerm?, sortSpec?, pending?, Token.neighbour, Token.isClause]
  obtain ⟨hx, hs, hp, hn⟩ := hplain
  exact {
    clauses := hc
    excluded := by simp [hf.excluded, hx]
    sort := by simp [hf.sort, hs]
    pending := hp.symm
    before := hn.symm
    endsJoined := by simp }

theorem Follows.map_ofRun?_snoc {ts : List Token} {s : Chain} (hf : Follows ts s) {t : Token}
    {c : Clause} (ht : Clause.ofToken? t = some c) (hp : s.pending ≠ some .or) :
    (orRuns (ts ++ [t])).map Clause.ofRun? = (c :: s.clauses).reverse.map some := by
  have hclause : t.isClause = true := by rw [Token.isClause_iff_ofToken?_isSome, ht]; rfl
  have hj : ¬ EndsJoined ts := fun h => hp (hf.pending ▸ pending?_of_endsJoined h)
  rw [Token.orRuns_append (fun h => absurd h hj) (Token.joinsNext_of_isClause hclause []),
    Token.orRuns_single hclause rfl]
  simp [hf.clauses, Token.orRuns, Clause.ofRun?_singleton, ht]

theorem Follows.map_ofRun?_joined {ts : List Token} {s : Chain} (hf : Follows ts s) {t : Token}
    {c d : Clause} {ds : List Clause} (ht : Clause.ofToken? t = some c)
    (hp : s.pending = some .or) (hd : s.clauses = d :: ds) :
    (orRuns (ts ++ [t])).map Clause.ofRun? = (.or d c :: ds).reverse.map some := by
  have hclause : t.isClause = true := by rw [Token.isClause_iff_ofToken?_isSome, ht]; rfl
  -- `OR` waits, so that the last run grows as the last clause does
  obtain ⟨rs, r, h1, hr, h2⟩ := Token.orRuns_append_joined (hf.endsJoined hp) hclause
  have hold := hf.clauses
  rw [h1, hd, List.map_append, List.reverse_cons, List.map_append] at hold
  obtain ⟨hrs, hlast⟩ := List.append_inj' hold rfl
  have hlast : Clause.ofRun? r = some d := by simpa using hlast
  rw [h2, List.map_append, hrs]
  simp [Clause.ofRun?_append hr, hlast, ht]

/-- Each token that a chain accepts is accounted for in it. -/
theorem Follows.push {ts : List Token} {s s' : Chain} {t : Token} (hf : Follows ts s)
    (h : s.push t = .ok s') : Follows (ts ++ [t]) s' := by
  rcases push_eq_ok h with ⟨c, rfl, -, -, hc, rfl⟩ | ⟨hp, ⟨key, direction, rfl, hs, rfl⟩ |
    ⟨term, ht, rfl⟩⟩ | ⟨c, ht, ⟨hp, rfl⟩ | ⟨hp, d, ds, hd, rfl⟩⟩
  · exact hf.snoc_connective hc
  · exact hf.snoc_sort hs
  · exact hf.snoc_exclusion ht
  · exact hf.snoc_clause ht (hf.map_ofRun?_snoc ht hp)
  · exact hf.snoc_clause ht (hf.map_ofRun?_joined ht hp hd)

theorem Follows.foldlM_push {ts us : List Token} {s s' : Chain} (hf : Follows ts s)
    (h : us.foldlM Chain.push s = .ok s') : Follows (ts ++ us) s' := by
  induction us generalizing ts s with
  | nil =>
    obtain rfl := Except.ok.inj h
    rwa [List.append_nil]
  | cons u us ih =>
    rw [List.foldlM_cons] at h
    obtain ⟨s₁, h₁, h₂⟩ := bind_eq_ok_iff.mp h
    simpa using ih (hf.push h₁) h₂

theorem finish_eq_ok_iff {s s' : Chain} : s.finish = .ok s' ↔ s.pending = none ∧ s = s' := by
  unfold finish
  split
  · rename_i hp
    simp [hp]
  · rename_i hp
    simp [hp]

theorem ofTokens_follows {ts : List Token} {s : Chain} (h : ofTokens ts = .ok s) :
    Follows ts s := by
  obtain ⟨s₁, h₁, h₂⟩ := bind_eq_ok_iff.mp h
  obtain ⟨-, rfl⟩ := finish_eq_ok_iff.mp h₂
  exact follows_nil.foldlM_push h₁

theorem ofTokens_ends {ts : List Token} {s : Chain} (h : ofTokens ts = .ok s) :
    (∀ c us, ts ≠ .connective c :: us) ∧ pending? ts = none := by
  constructor
  · rintro c us rfl
    obtain ⟨s₁, h₁, -⟩ := bind_eq_ok_iff.mp h
    rw [List.foldlM_cons] at h₁
    obtain ⟨s₂, h₂, -⟩ := bind_eq_ok_iff.mp h₁
    simp [push, pushConnective] at h₂
  · rw [← (ofTokens_follows h).pending]
    obtain ⟨s₁, -, h₂⟩ := bind_eq_ok_iff.mp h
    obtain ⟨hp, rfl⟩ := finish_eq_ok_iff.mp h₂
    exact hp

theorem sort_of_push {s s' : Chain} {t : Token} (h : s.push t = .ok s') :
    s'.sort.toList = s.sort.toList ++ (sortSpec? t).toList := by
  rcases push_eq_ok h with ⟨c, rfl, -, -, -, rfl⟩ | ⟨-, ⟨key, direction, rfl, hs, rfl⟩ |
    ⟨term, ht, rfl⟩⟩ | ⟨c, ht, ⟨-, rfl⟩ | ⟨-, d, ds, -, rfl⟩⟩
  · simp [sortSpec?]
  · simp [sortSpec?, hs]
  · cases t <;> simp_all [sortSpec?, Token.excludedTerm?]
  · cases t <;> simp_all [sortSpec?, Clause.ofToken?]
  · cases t <;> simp_all [sortSpec?, Clause.ofToken?]

theorem sort_of_foldlM {s s' : Chain} {ts : List Token} (h : ts.foldlM push s = .ok s') :
    s'.sort.toList = s.sort.toList ++ ts.filterMap sortSpec? := by
  induction ts generalizing s with
  | nil =>
    obtain rfl := Except.ok.inj h
    simp
  | cons t ts ih =>
    rw [List.foldlM_cons] at h
    obtain ⟨s₁, h₁, h₂⟩ := bind_eq_ok_iff.mp h
    rw [ih h₂, sort_of_push h₁, List.append_assoc, List.filterMap_cons]
    cases sortSpec? t <;> rfl

theorem sort_of_ofTokens {ts : List Token} {s : Chain} (h : ofTokens ts = .ok s) :
    s.sort.toList = ts.filterMap sortSpec? := by
  obtain ⟨s₁, h₁, h₂⟩ := bind_eq_ok_iff.mp h
  obtain ⟨-, rfl⟩ := finish_eq_ok_iff.mp h₂
  simpa using sort_of_foldlM h₁

theorem Follows.clauses_ne_nil {ts : List Token} {s : Chain} (hf : Follows ts s)
    (hp : s.pending = some .or) : s.clauses ≠ [] := by
  obtain ⟨us, u, rfl, hu⟩ := hf.endsJoined hp
  obtain ⟨rs, r, h, -⟩ := Token.orRuns_append_joined ⟨us, u, rfl, hu⟩ hu
  intro hc
  have := hf.clauses
  simp [h, hc] at this

/-- What a chain refuses a token for: a connective or a sort directive that has no place, an
exclusion of what is no word and no phrase, no clause for `OR` to take, or a token that is none of
the language. -/
theorem push_eq_error {s : Chain} {t : Token} {e : Failure} (h : s.push t = .error e) :
    (∃ c, e = .malformed (.danglingOperator c)) ∨
    (∃ directive, e = .malformed (.conflictingSort directive)) ∨
    (∃ u, t = .exclude u ∧ t.excludedTerm? = none ∧
      e = .malformed (.invalidExclusion ('-' :: u.describe))) ∨
    (e = .fault .emptyChain ∧ s.pending = some .or ∧ s.clauses = []) ∨
    e = .fault .unknownToken ∧ t = .unknown := by
  cases t with
  | connective c =>
    simp only [Chain.push, pushConnective] at h
    split at h
    · exact .inl ⟨_, (Except.error.inj h).symm⟩
    · simp at h
  | sort key direction =>
    simp only [Chain.push, pushSort] at h
    split at h
    · exact .inl ⟨_, (Except.error.inj h).symm⟩
    · split at h
      · exact .inr (.inl ⟨_, (Except.error.inj h).symm⟩)
      · simp at h
  | exclude u =>
    simp only [Chain.push] at h
    split at h
    · exact .inl ⟨_, (Except.error.inj h).symm⟩
    · cases u with
      | word | phrase => simp [pushExclusion] at h
      | _ => exact .inr (.inr (.inl ⟨_, rfl, rfl, (Except.error.inj h).symm⟩))
  | unknown =>
    simp only [Chain.push, Clause.ofToken?] at h
    split at h
    · exact .inl ⟨_, (Except.error.inj h).symm⟩
    · exact .inr (.inr (.inr (.inr ⟨(Except.error.inj h).symm, rfl⟩)))
  -- a clause is refused only where `OR` has nothing to take off the chain
  | _ =>
    simp only [Chain.push, Token.isClause, Bool.true_eq_false, and_false, ite_false,
      Clause.ofToken?, pushClause] at h
    split at h
    · rename_i hp
      split at h
      · rename_i hc
        exact .inr (.inr (.inr (.inl ⟨(Except.error.inj h).symm, hp, hc⟩)))
      · simp at h
    · simp at h

/-- A chain that tokens have built refuses one only for a mistake in how they are put together,
unless it is no token of the language. -/
theorem Follows.push_eq_error {ts : List Token} {s : Chain} {t : Token} {e : Failure}
    (hf : Follows ts s) (h : s.push t = .error e) :
    (∃ m : SyntaxError, e = .malformed m ∧ m.isParseError = true) ∨
      e = .fault .unknownToken ∧ t = .unknown := by
  rcases Chain.push_eq_error h with ⟨c, rfl⟩ | ⟨d, rfl⟩ | ⟨u, -, -, rfl⟩ | ⟨-, hp, hc⟩ | hu
  · exact .inl ⟨_, rfl, rfl⟩
  · exact .inl ⟨_, rfl, rfl⟩
  · exact .inl ⟨_, rfl, rfl⟩
  · exact absurd hc (hf.clauses_ne_nil hp)
  · exact .inr hu

theorem Follows.foldlM_push_eq_error {ts us : List Token} {s : Chain} {e : Failure}
    (hf : Follows ts s) (h : us.foldlM Chain.push s = .error e) :
    (∃ m : SyntaxError, e = .malformed m ∧ m.isParseError = true) ∨
      e = .fault .unknownToken ∧ .unknown ∈ us := by
  induction us generalizing ts s with
  | nil => simp [pure, Except.pure] at h
  | cons u us ih =>
    rw [List.foldlM_cons] at h
    rcases bind_eq_error_iff.mp h with h | ⟨s₁, h₁, h₂⟩
    · exact (hf.push_eq_error h).imp_right fun ⟨he, hu⟩ => ⟨he, hu ▸ List.mem_cons_self⟩
    · exact (ih (hf.push h₁) h₂).imp_right fun ⟨he, hm⟩ => ⟨he, List.mem_cons_of_mem _ hm⟩

theorem ofTokens_eq_error {ts : List Token} {e : Failure} (h : ofTokens ts = .error e) :
    (∃ m : SyntaxError, e = .malformed m ∧ m.isParseError = true) ∨
      e = .fault .unknownToken ∧ .unknown ∈ ts := by
  rcases bind_eq_error_iff.mp h with h | ⟨s, -, h⟩
  · exact follows_nil.foldlM_push_eq_error h
  · unfold finish at h
    split at h
    · exact .inl ⟨_, (Except.error.inj h).symm, rfl⟩
    · simp at h

theorem ofTokens_fault {ts : List Token} {f : Fault} (h : ofTokens ts = .error (.fault f)) :
    f = .unknownToken ∧ .unknown ∈ ts := by
  rcases ofTokens_eq_error h with ⟨m, hm, -⟩ | ⟨hf, hu⟩
  · simp [Failure.malformed] at hm
  · exact ⟨by simpa using hf, hu⟩

end Chain

end ArticleArchive
