import ArticleArchive.Proofs.Query.Collecting
import ArticleArchive.Proofs.Query.Grammar

namespace ArticleArchive

/-- One end of an interval of days: the day as it is written, and whether it is included. -/
abbrev DayBound := Text × Bool

namespace Comparison

/-- The lower end that a comparison with a day sets. -/
def startBound? (op : Comparison) (day : Text) : Option DayBound :=
  match op with
  | gt => some (day, false)
  | lt | le => none
  | _ => some (day, true)

def stopBound? (op : Comparison) (day : Text) : Option DayBound :=
  match op with
  | lt => some (day, false)
  | gt | ge => none
  | _ => some (day, true)

end Comparison

namespace Clause

/-- Whether a clause, standing alone, is kept apart from those that are required. -/
def isFilter : Clause → Bool
  | field _ | range _ | dates _ _ => true
  | _ => false

/-- Whether a clause is about the day of an article. -/
def isOfDays : Clause → Bool
  | dates _ _ => true
  | range r => r.quantity == .date
  | _ => false

def field? : Clause → Option FieldClause
  | field f => some f
  | _ => none

def views? : Clause → Option RangeClause
  | range r => if r.quantity = .views then some r else none
  | _ => none

def startBound? : Clause → Option DayBound
  | dates low _ => some (low, true)
  | range r => if r.quantity = .date then r.op.startBound? r.value else none
  | _ => none

def stopBound? : Clause → Option DayBound
  | dates _ high => some (high, true)
  | range r => if r.quantity = .date then r.op.stopBound? r.value else none
  | _ => none

theorem isOfDays_iff (c : Clause) :
    c.isOfDays = true ↔ c.startBound? ≠ none ∨ c.stopBound? ≠ none := by
  cases c with
  | range r =>
    obtain ⟨quantity, op, value⟩ := r
    cases quantity <;> cases op <;>
      simp [isOfDays, startBound?, stopBound?, Comparison.startBound?, Comparison.stopBound?]
  | _ => simp [isOfDays, startBound?, stopBound?]

end Clause

namespace DateFilter

def between (start stop : Option DayBound) : DateFilter where
  start := start.map (·.1)
  stop := stop.map (·.1)
  startIncluded := start.elim true (·.2)
  stopIncluded := stop.elim true (·.2)

variable {start stop : Option DayBound} {f : DateFilter}

theorem isEmpty_between : (between start stop).isEmpty = true ↔ start = none ∧ stop = none := by
  simp [isEmpty, between]

theorem setStart_between {day : Text} {included : Bool}
    (h : (between start stop).setStart day included = .ok f) :
    start = none ∧ f = between (some (day, included)) stop := by
  obtain ⟨hs, rfl⟩ := setStart_eq_ok h
  obtain rfl : start = none := by simpa [between] using hs
  exact ⟨rfl, rfl⟩

theorem setStop_between {day : Text} {included : Bool}
    (h : (between start stop).setStop day included = .ok f) :
    stop = none ∧ f = between start (some (day, included)) := by
  obtain ⟨hs, rfl⟩ := setStop_eq_ok h
  obtain rfl : stop = none := by simpa [between] using hs
  exact ⟨rfl, rfl⟩

theorem setBoth_between {low high : Text} (h : (between start stop).setBoth low high = .ok f) :
    start = none ∧ stop = none ∧ f = between (some (low, true)) (some (high, true)) := by
  obtain ⟨g, hg, hf⟩ := bind_eq_ok_iff.mp h
  obtain ⟨rfl, rfl⟩ := setStart_between hg
  obtain ⟨rfl, rfl⟩ := setStop_between hf
  exact ⟨rfl, rfl, rfl⟩

/-- The interval between the ends that some clauses set, each of them once at most. -/
def Bounds (cs : List Clause) (f : DateFilter) : Prop :=
  ∃ start stop, cs.filterMap Clause.startBound? = Option.toList start ∧
    cs.filterMap Clause.stopBound? = Option.toList stop ∧ f = between start stop

variable {cs : List Clause} {c : Clause} {f' : DateFilter}

theorem Bounds.isEmpty_iff (h : Bounds cs f) :
    f.isEmpty = true ↔ ∀ c ∈ cs, c.isOfDays = false := by
  obtain ⟨start, stop, hstart, hstop, rfl⟩ := h
  rw [isEmpty_between, ← Option.toList_eq_nil_iff, ← Option.toList_eq_nil_iff, ← hstart, ← hstop,
    List.filterMap_eq_nil_iff, List.filterMap_eq_nil_iff, ← forall₂_and]
  refine forall₂_congr fun c _ => ?_
  rw [← Bool.not_eq_true, Clause.isOfDays_iff]
  tauto

theorem Bounds.concat_same (h : Bounds cs f) (hstart : c.startBound? = none)
    (hstop : c.stopBound? = none) : Bounds (cs ++ [c]) f := by
  simpa [Bounds, hstart, hstop] using h

theorem Bounds.setBoth (h : Bounds cs f) {low high : Text}
    (hc : c.startBound? = some (low, true) ∧ c.stopBound? = some (high, true))
    (hf : f.setBoth low high = .ok f') : Bounds (cs ++ [c]) f' := by
  obtain ⟨start, stop, hstart, hstop, rfl⟩ := h
  obtain ⟨rfl, rfl, rfl⟩ := setBoth_between hf
  exact ⟨some (low, true), some (high, true), by simp [hstart, hc], by simp [hstop, hc], rfl⟩

theorem Bounds.addComparison (h : Bounds cs f) {op : Comparison} {day : Text}
    (hstart : c.startBound? = op.startBound? day) (hstop : c.stopBound? = op.stopBound? day)
    (hf : f.addComparison op day = .ok f') : Bounds (cs ++ [c]) f' := by
  cases op with
  | gt | ge =>
    obtain ⟨start, stop, hs, ht, rfl⟩ := h
    obtain ⟨rfl, rfl⟩ := setStart_between hf
    exact ⟨_, stop, by simp [hs, hstart, Comparison.startBound?],
      by simp [ht, hstop, Comparison.stopBound?], rfl⟩
  | lt | le =>
    obtain ⟨start, stop, hs, ht, rfl⟩ := h
    obtain ⟨rfl, rfl⟩ := setStop_between hf
    exact ⟨start, _, by simp [hs, hstart, Comparison.startBound?],
      by simp [ht, hstop, Comparison.stopBound?], rfl⟩
  | eq | other => exact h.setBoth ⟨hstart, hstop⟩ hf

end DateFilter

namespace Query

/-- The clauses `cs` are all in the query, each in its place and in their order, and there are no
others; no field has two. -/
structure Keeps (q : Query) (cs : List Clause) : Prop where
  required : q.required = cs.filter fun c => !c.isFilter
  fields : q.fields = cs.filterMap Clause.field?
  names : (q.fields.map (·.name)).Nodup
  views : q.views = cs.filterMap Clause.views?
  dates : q.dates.Bounds cs

variable {q q' : Query} {cs : List Clause} {c : Clause}

theorem keeps_nil (excluded : List Term) (sort : Option SortSpec) :
    Keeps { excluded, sort } [] :=
  ⟨rfl, rfl, List.nodup_nil, rfl, none, none, rfl, rfl, rfl⟩

theorem bounds_addClause (hd : q.dates.Bounds cs) (h : q.addClause c = .ok q') :
    q'.dates.Bounds (cs ++ [c]) := by
  rcases addClause_eq_ok h with ⟨f, rfl, rfl⟩ | ⟨r, rfl, hr, rfl⟩ | ⟨r, f, rfl, hr, hf, rfl⟩ |
    ⟨low, high, f, rfl, hf, rfl⟩ | ⟨⟨t, rfl⟩ | ⟨l, r, rfl⟩, rfl⟩
  · exact hd.concat_same rfl rfl
  · exact hd.concat_same (by simp [Clause.startBound?, hr]) (by simp [Clause.stopBound?, hr])
  · exact hd.addComparison (by simp [Clause.startBound?, hr]) (by simp [Clause.stopBound?, hr]) hf
  · exact hd.setBoth ⟨rfl, rfl⟩ hf
  · exact hd.concat_same rfl rfl
  · exact hd.concat_same rfl rfl

theorem names_addClause (hq : (q.fields.map (·.name)).Nodup) (h : q.addClause c = .ok q') :
    (q'.fields.map (·.name)).Nodup := by
  rcases places_addClause hq c with ⟨q₁, h₁, hnames, -⟩ | ⟨-, name, he⟩
  · obtain rfl : q₁ = q' := Except.ok.inj (h₁.symm.trans h)
    exact hnames
  · simp [he] at h

theorem Keeps.addClause (hq : q.Keeps cs) (h : q.addClause c = .ok q') :
    q'.Keeps (cs ++ [c]) := by
  have hdates := bounds_addClause hq.dates h
  have hnames := names_addClause hq.names h
  rcases addClause_eq_ok h with ⟨f, rfl, rfl⟩ | ⟨r, rfl, hr, rfl⟩ | ⟨r, f, rfl, hr, -, rfl⟩ |
    ⟨low, high, f, rfl, -, rfl⟩ | ⟨⟨t, rfl⟩ | ⟨l, r, rfl⟩, rfl⟩
  all_goals
    refine ⟨?_, ?_, hnames, ?_, hdates⟩
    · simp [hq.required, Clause.isFilter]
    · simp [hq.fields, Clause.field?]
    · simp [hq.views, Clause.views?, *]

theorem Keeps.foldlM_addClause (hq : q.Keeps cs) {ds : List Clause}
    (h : ds.foldlM Query.addClause q = .ok q') : q'.Keeps (cs ++ ds) := by
  induction ds generalizing q cs with
  | nil =>
    obtain rfl := Except.ok.inj h
    rwa [List.append_nil]
  | cons d ds ih =>
    rw [List.foldlM_cons] at h
    obtain ⟨q₁, h₁, h₂⟩ := bind_eq_ok_iff.mp h
    simpa using ih (hq.addClause h₁) h₂

theorem exists_keeps_of_ofTokens {ts : List Token} (h : ofTokens ts = .ok q) :
    ∃ s cs, Chain.ofTokens ts = .ok s ∧ (Token.orRuns ts).map Clause.ofRun? = cs.map some ∧
      q.Keeps cs ∧ q.excluded = s.excluded.reverse ∧ q.sort = s.sort := by
  obtain ⟨s, hs, h⟩ := bind_eq_ok_iff.mp h
  have h := mapError_eq_ok_iff.mp h
  obtain ⟨hexcluded, hsort⟩ := foldlM_addClause_frame h
  refine ⟨s, s.clauses.reverse, hs, (Chain.ofTokens_follows hs).clauses, ?_, hexcluded, hsort⟩
  simpa using (keeps_nil s.excluded.reverse s.sort).foldlM_addClause h

end Query

namespace Token

variable {ts before after : List Token} {t u : Token}

theorem flatten_consRun (t : Token) (rs : List (List Token)) :
    (consRun t rs).flatten = t :: rs.flatten := by
  cases rs <;> rfl

theorem flatten_orRuns (ts : List Token) : (orRuns ts).flatten = ts.filter isClause := by
  induction ts with
  | nil => rfl
  | cons t ts ih =>
    unfold orRuns
    split
    · rename_i ht
      rw [List.filter_cons_of_pos ht, ← ih]
      split
      · exact flatten_consRun t _
      · rfl
    · rename_i ht
      rw [List.filter_cons_of_neg ht, ih]

theorem joinsNext_of_not_isConnective (ht : t.isConnective = false) :
    joinsNext (t :: ts) = false := by
  cases t with
  | connective c => simp [isConnective] at ht
  | _ => rfl

theorem not_endsJoined_concat (ht : t.isConnective = false) : ¬ EndsJoined (ts ++ [t]) := by
  intro h
  have hp := Chain.pending?_of_endsJoined h
  cases t with
  | connective c => simp [isConnective] at ht
  | _ => simp [pending?] at hp

theorem orRuns_and (ht : t.isConnective = false) (hu : u.isConnective = false) :
    orRuns (before ++ t :: .connective .and :: u :: after) =
      orRuns (before ++ t :: u :: after) := by
  have hsplit {us : List Token} (hus : joinsNext us = false) :
      orRuns (before ++ t :: us) = orRuns (before ++ [t]) ++ orRuns us := by
    have hbefore : ¬ EndsJoined (before ++ [t]) := not_endsJoined_concat ht
    simpa using orRuns_append (fun h => absurd h hbefore) hus
  rw [hsplit rfl, hsplit (joinsNext_of_not_isConnective hu), orRuns_of_not_isClause rfl]

theorem complete_and_iff (ht : t.isConnective = false) (hu : u.isConnective = false) :
    Complete (before ++ t :: .connective .and :: u :: after) ↔
      Complete (before ++ t :: u :: after) := by
  have hor : t ≠ .connective .or ∧ u ≠ .connective .or := by
    constructor
    · rintro rfl
      simp [isConnective] at ht
    · rintro rfl
      simp [isConnective] at hu
  have hsorts : (before ++ t :: .connective .and :: u :: after).countP isSort =
      (before ++ t :: u :: after).countP isSort := by
    simp [List.countP_cons, isSort]
  rw [complete_iff, joined_iff, complete_iff, joined_iff, hsorts]
  simp only [List.isChain_append_cons_cons, List.isChain_cons_cons]
  simp [ht, hu, hor, OrJoins, List.getLast?_append, List.getLast?_cons_cons]

theorem Complete.around_and (h : Complete (before ++ .connective .and :: after)) :
    ∃ before' t u after', before = before' ++ [t] ∧ after = u :: after' ∧
      t.isConnective = false ∧ u.isConnective = false := by
  rcases List.eq_nil_or_concat before with rfl | ⟨before', t, rfl⟩
  · simpa [isConnective] using h.first
  · cases after with
    | nil => simpa [isConnective] using h.last
    | cons u after =>
      have hapart := h.apart
      rw [List.concat_eq_append, List.append_assoc, List.singleton_append,
        List.isChain_append_cons_cons, List.isChain_cons_cons] at hapart
      refine ⟨before', t, u, after, List.concat_eq_append, rfl, ?_, ?_⟩
      · simpa [isConnective] using hapart.2.1
      · simpa [isConnective] using hapart.2.2.1

def withoutAnd (ts : List Token) : List Token :=
  ts.filter (· != .connective .and)

/-- Tokens that say the same: they come to the same runs, exclusions and sort directives. -/
structure Alike (ts us : List Token) : Prop where
  runs : orRuns us = orRuns ts
  exclusions : us.filterMap excludedTerm? = ts.filterMap excludedTerm?
  sorts : us.findSome? sortSpec? = ts.findSome? sortSpec?

theorem alike_and (ht : t.isConnective = false) (hu : u.isConnective = false) :
    Alike (before ++ t :: u :: after) (before ++ t :: .connective .and :: u :: after) where
  runs := orRuns_and ht hu
  exclusions := by simp [List.filterMap_cons, excludedTerm?]
  sorts := by simp [List.findSome?_append, List.findSome?_cons, sortSpec?]

theorem Alike.symm {us : List Token} (h : Alike ts us) : Alike us ts :=
  ⟨h.runs.symm, h.exclusions.symm, h.sorts.symm⟩

def isExclusion : Token → Bool
  | .exclude _ => true
  | _ => false

theorem map_excludedTerm? (h : ∀ t, .exclude t ∈ ts → t.isFreeText = true) :
    (ts.filter isExclusion).map excludedTerm? = (ts.filterMap excludedTerm?).map some := by
  induction ts with
  | nil => rfl
  | cons t ts ih =>
    have ih := ih fun u hu => h u (List.mem_cons_of_mem t hu)
    cases t with
    | exclude u =>
      have hu := h u List.mem_cons_self
      rw [List.filter_cons_of_pos rfl, List.map_cons, ih]
      cases u with
      | word | phrase => rfl
      | _ => simp [isFreeText] at hu
    | _ => simpa [isExclusion, excludedTerm?, List.filterMap_cons] using ih

end Token

theorem Chain.unknown_notMem_of_foldlM {ts : List Token} {s s' : Chain}
    (h : ts.foldlM push s = .ok s') : .unknown ∉ ts := by
  induction ts generalizing s with
  | nil => exact List.not_mem_nil
  | cons t ts ih =>
    rw [List.foldlM_cons] at h
    obtain ⟨s₁, h₁, h₂⟩ := bind_eq_ok_iff.mp h
    rintro (_ | ⟨_, ht⟩)
    · simpa [Token.excludedTerm?, Clause.ofToken?] using push_eq_ok h₁
    · exact ih h₂ ht

namespace Query

open Token (orRuns excludedTerm? sortSpec? withoutAnd)

theorem unknown_notMem_of_ofTokens {ts : List Token} {q : Query} (h : ofTokens ts = .ok q) :
    .unknown ∉ ts := by
  obtain ⟨s, hs, -⟩ := bind_eq_ok_iff.mp h
  obtain ⟨s, hs, -⟩ := bind_eq_ok_iff.mp hs
  exact Chain.unknown_notMem_of_foldlM hs

theorem complete_of_ofTokens {ts : List Token} {q : Query} (h : ofTokens ts = .ok q) :
    Token.Complete ts := by
  have hknown := unknown_notMem_of_ofTokens h
  obtain ⟨s, hs, -⟩ := bind_eq_ok_iff.mp h
  exact (Chain.exists_ofTokens_iff hknown).mp ⟨s, hs⟩

/-- Complete lists of tokens that say the same make the same query. -/
theorem ofTokens_of_alike {ts us : List Token} {q : Query} (h : ofTokens ts = .ok q)
    (ha : Token.Alike ts us) (hc : Token.Complete us) (hu : .unknown ∉ us) :
    ofTokens us = .ok q := by
  obtain ⟨s, hs, h⟩ := bind_eq_ok_iff.mp h
  obtain ⟨s', hs'⟩ := (Chain.exists_ofTokens_iff hu).mpr hc
  have hf := Chain.ofTokens_follows hs
  have hf' := Chain.ofTokens_follows hs'
  have hclauses : s'.clauses.reverse = s.clauses.reverse := by
    have := hf'.clauses
    rw [ha.runs, hf.clauses] at this
    exact (List.map_inj_right fun _ _ => Option.some.inj).mp this.symm
  have hexcluded : s'.excluded.reverse = s.excluded.reverse := by
    rw [hf'.excluded, hf.excluded, ha.exclusions]
  have hsort : s'.sort = s.sort := by rw [hf'.sort, hf.sort, ha.sorts]
  refine bind_eq_ok_iff.mpr ⟨s', hs', ?_⟩
  rwa [hclauses, hexcluded, hsort]

theorem ofTokens_insert_and {before after : List Token} {t u : Token} {q : Query}
    (h : ofTokens (before ++ t :: u :: after) = .ok q) (ht : t.isConnective = false)
    (hu : u.isConnective = false) :
    ofTokens (before ++ t :: .connective .and :: u :: after) = .ok q := by
  have hknown := unknown_notMem_of_ofTokens h
  refine ofTokens_of_alike h (Token.alike_and ht hu) ?_ (by simpa using hknown)
  exact (Token.complete_and_iff ht hu).mpr (complete_of_ofTokens h)

theorem ofTokens_remove_and {before after : List Token} {q : Query}
    (h : ofTokens (before ++ .connective .and :: after) = .ok q) :
    ofTokens (before ++ after) = .ok q := by
  have hknown := unknown_notMem_of_ofTokens h
  have hcomplete := complete_of_ofTokens h
  obtain ⟨before, t, u, after, rfl, rfl, ht, hu⟩ := hcomplete.around_and
  rw [List.append_assoc, List.singleton_append] at h hcomplete ⊢
  refine ofTokens_of_alike h (Token.alike_and ht hu).symm ?_ (by simpa using hknown)
  exact (Token.complete_and_iff ht hu).mp hcomplete

theorem ofTokens_of_sublist (before : List Token) {ts us : List Token} {q : Query}
    (hs : us.Sublist ts) (hand : withoutAnd us = withoutAnd ts)
    (h : ofTokens (before ++ ts) = .ok q) : ofTokens (before ++ us) = .ok q := by
  induction hs generalizing before with
  | slnil => exact h
  | @cons us ts t hs ih =>
    by_cases ht : t = .connective .and
    · subst ht
      exact ih before (by simpa [withoutAnd] using hand) (ofTokens_remove_and h)
    -- what is left out is an `AND`, since all other tokens are still there
    · have hlen := congrArg List.length hand
      have hle : (withoutAnd us).length ≤ (withoutAnd ts).length := (hs.filter _).length_le
      have hkept : withoutAnd (t :: ts) = t :: withoutAnd ts :=
        List.filter_cons_of_pos (by simpa using ht)
      rw [hkept, List.length_cons] at hlen
      omega
  | @cons_cons us ts t hs ih =>
    have hrest : withoutAnd us = withoutAnd ts := by
      by_cases ht : t = .connective .and
      · simpa [withoutAnd, ht] using hand
      · simpa [withoutAnd, ht] using hand
    simpa using ih (before ++ [t]) hrest (by simpa using h)

/-- Where the tokens of a query are kept. The clauses are cut into runs joined by `OR`, which hold
every clause once and in order, and each run is one clause of the query, joined from the left, that
stands in its place and in the order of the runs; there are days if and only if a clause of days
stands alone. All exclusions are kept in their order, and the one sort directive. `AND` can be left
out anywhere and put in between any two tokens that are no connectives. -/
theorem query_keeps_runs {ts : List Token} {q : Query} (h : ofTokens ts = .ok q) :
    ((orRuns ts).flatten = ts.filter Token.isClause ∧
      ∀ run, run ∈ orRuns ts ↔ Token.IsOrRun ts run) ∧
    (∃ cs, (orRuns ts).map Clause.ofRun? = cs.map some ∧ q.Keeps cs ∧
      (q.dates.isEmpty = true ↔ ∀ c ∈ cs, c.isOfDays = false)) ∧
    q.excluded.map some = (ts.filter Token.isExclusion).map excludedTerm? ∧
    q.sort.toList = ts.filterMap sortSpec? ∧
    (∀ us, us.Sublist ts → withoutAnd us = withoutAnd ts → ofTokens us = .ok q) ∧
    ∀ before t u after, ts = before ++ t :: u :: after → t.isConnective = false →
      u.isConnective = false →
      ofTokens (before ++ t :: .connective .and :: u :: after) = .ok q := by
  -- the chain between the tokens and the query, with the clauses of its runs
  obtain ⟨s, cs, hs, hruns, hkeeps, hexcluded, hsort⟩ := exists_keeps_of_ofTokens h
  refine ⟨⟨Token.flatten_orRuns ts, fun run => Token.mem_orRuns_iff⟩,
    ⟨cs, hruns, hkeeps, hkeeps.dates.isEmpty_iff⟩, ?_, ?_, fun us hus hand => ?_, ?_⟩
  · rw [hexcluded, (Chain.ofTokens_follows hs).excluded,
      Token.map_excludedTerm? (complete_of_ofTokens h).exclusions]
  · rw [hsort, Chain.sort_of_ofTokens hs]
  · exact ofTokens_of_sublist [] hus hand h
  · rintro before t u after rfl ht hu
    exact ofTokens_insert_and h ht hu

/-- A run of two, filters of two kinds, an exclusion and a word, with an `AND` that can as well
stand elsewhere. -/
theorem query_keeps_runs_between_filters :
    let run : List Token := [.word ['a'], .connective .or, .phrase ['b']]
    let views : Token := .range "view_count".toList .ge ['5']
    let days : Token := .range dateField .gt "2024-01-01".toList
    let rest : List Token := [.exclude (.word ['z']), .word ['c']]
    let q : Query := {
      required := [.or (.term ⟨['a'], false⟩) (.term ⟨['b'], true⟩), .term ⟨['c'], false⟩]
      excluded := [⟨['z'], false⟩]
      dates := { start := some "2024-01-01".toList, startIncluded := false }
      views := [⟨.views, .ge, ['5']⟩] }
    ofTokens (run ++ .connective .and :: views :: days :: rest) = .ok q ∧
      (∃ cs, (orRuns (run ++ .connective .and :: views :: days :: rest)).map Clause.ofRun? =
        cs.map some ∧ q.Keeps cs ∧ (q.dates.isEmpty = true ↔ ∀ c ∈ cs, c.isOfDays = false)) ∧
      ofTokens (run ++ views :: days :: rest) = .ok q ∧
      ofTokens (run ++ .connective .and :: views :: .connective .and :: days :: rest) = .ok q := by
  intro run views days rest q
  have hq : ofTokens (run ++ .connective .and :: views :: days :: rest) = .ok q := rfl
  obtain ⟨-, hkeeps, -, -, hwithout, hwith⟩ := query_keeps_runs hq
  refine ⟨hq, hkeeps, hwithout _ ?_ rfl,
    hwith (run ++ [.connective .and]) views days rest rfl rfl rfl⟩
  exact (List.sublist_cons_self _ _).append_left run

end Query

end ArticleArchive
