import ArticleArchive.Proofs.Calendar.Days
import ArticleArchive.Proofs.Query.Layout
import ArticleArchive.Proofs.Query.Reading

namespace ArticleArchive

/-- Two days, the first of them after the second. -/
def Text.DayAfter (low high : Text) : Prop :=
  ∃ l h : Date, low = l.text ∧ high = h.text ∧ h.Before l

def Text.IsDecimal (t : Text) : Prop :=
  t ≠ [] ∧ ∀ c ∈ t, '0' ≤ c ∧ c ≤ '9'

def knownFields : List Text :=
  ["title".toList, "content".toList, "category".toList]

def knownSortKeys : List Text :=
  ["date".toList, "views".toList, "title".toList, "relevance".toList, "created_at".toList,
    "view_count".toList]

theorem Text.DayAfter.isDay {low high : Text} (h : DayAfter low high) : low.IsDay ∧ high.IsDay := by
  obtain ⟨l, h, rfl, rfl, -⟩ := h
  exact ⟨⟨l, rfl⟩, h, rfl⟩

theorem Date.dayAfter_iff {low high : Text} {l h : Date} (hl : ofText? low = some l)
    (hh : ofText? high = some h) : Text.DayAfter low high ↔ h.rank < l.rank := by
  rw [ofText?_eq_some_iff] at hl hh
  subst hl hh
  rw [rank_lt_iff]
  constructor
  · rintro ⟨l', h', hl, hh, hlt⟩
    rwa [text_injective hl, text_injective hh]
  · exact fun hlt => ⟨l, h, rfl, rfl, hlt⟩

theorem Text.not_dayAfter_self (t : Text) : ¬ DayAfter t t := by
  rintro ⟨l, h, rfl, hh, hlt⟩
  obtain rfl := Date.text_injective hh
  exact (Date.rank_lt_iff.mpr hlt).false

namespace Clause

/-- No clauses are joined by `OR`. -/
def IsSimple : Clause → Prop
  | or _ _ => False
  | _ => True

/-- A clause is in another one if it is that clause or in one of those that are joined. -/
inductive In (c : Clause) : Clause → Prop where
  | self : In c c
  | left {l r : Clause} (h : In c l) : In c (or l r)
  | right {l r : Clause} (h : In c r) : In c (or l r)

theorem mem_leaves_iff {c d : Clause} : c ∈ d.leaves ↔ c.In d ∧ c.IsSimple := by
  induction d with
  | or l r hl hr =>
    rw [leaves, List.mem_append, hl, hr]
    constructor
    · rintro (⟨h, hc⟩ | ⟨h, hc⟩)
      · exact ⟨h.left, hc⟩
      · exact ⟨h.right, hc⟩
    · rintro ⟨- | h | h, hc⟩
      · exact hc.elim
      · exact .inl ⟨h, hc⟩
      · exact .inr ⟨h, hc⟩
  | _ =>
    change c ∈ [_] ↔ _
    rw [List.mem_singleton]
    constructor
    · rintro rfl
      exact ⟨.self, trivial⟩
    · rintro ⟨⟨⟩, -⟩
      rfl

end Clause

namespace Problem

/-- What a text comes to where a day has to stand. -/
inductive OfDay : Text → List Problem → Prop where
  | day {t : Text} (h : t.IsDay) : OfDay t []
  | other {t : Text} (h : ¬ t.IsDay) : OfDay t [.invalidDate t]

/-- What the two ends of an interval come to. -/
inductive OfEnds : Text → Text → List Problem → Prop where
  | one {t : Text} {ps : List Problem} (h : OfDay t ps) : OfEnds t t ps
  | two {low high : Text} {ps qs : List Problem} (hne : low ≠ high) (hlow : OfDay low ps)
    (hhigh : OfDay high qs) (h : ¬ Text.DayAfter low high) : OfEnds low high (ps ++ qs)
  | turned {low high : Text} (h : Text.DayAfter low high) :
    OfEnds low high [.invalidRange low high]

/-- What a clause without `OR` comes to. -/
inductive OfClause : Clause → List Problem → Prop where
  | term (t : Term) : OfClause (.term t) []
  | field {f : FieldClause} (h : f.name ∈ knownFields) : OfClause (.field f) []
  | otherField {f : FieldClause} (h : f.name ∉ knownFields) :
    OfClause (.field f) [.unknownField f.name (hint? f.name knownFields)]
  | number {op : Comparison} {value : Text} (h : value.IsDecimal) :
    OfClause (.range ⟨.views, op, value⟩) []
  | otherNumber {op : Comparison} {value : Text} (h : ¬ value.IsDecimal) :
    OfClause (.range ⟨.views, op, value⟩) [.invalidNumber value]
  | comparison {op : Comparison} {day : Text} {ps : List Problem} (h : OfDay day ps) :
    OfClause (.range ⟨.date, op, day⟩) ps
  | dates {low high : Text} {ps : List Problem} (h : OfEnds low high ps) :
    OfClause (.dates low high) ps

/-- What the two ends of the interval of a query come to, where either may be missing. -/
inductive OfBounds : Option Text → Option Text → List Problem → Prop where
  | neither : OfBounds none none []
  | low {t : Text} {ps : List Problem} (h : OfDay t ps) : OfBounds (some t) none ps
  | high {t : Text} {ps : List Problem} (h : OfDay t ps) : OfBounds none (some t) ps
  | both {low high : Text} {ps : List Problem} (h : OfEnds low high ps) :
    OfBounds (some low) (some high) ps

inductive OfSort : Option SortSpec → List Problem → Prop where
  | unsorted : OfSort none []
  | key {s : SortSpec} (h : s.key ∈ knownSortKeys) : OfSort (some s) []
  | otherKey {s : SortSpec} (h : s.key ∉ knownSortKeys) :
    OfSort (some s) [.unknownSortKey s.key (hint? s.key knownSortKeys)]

end Problem

/-- The problems of a query, put together from those of its parts. -/
def Query.ComesTo (q : Query) (ps : List Problem) : Prop :=
  ∃ ofClauses ofDates ofSort, List.Forall₂ Problem.OfClause q.clauses ofClauses ∧
    Problem.OfBounds q.dates.start q.dates.stop ofDates ∧ Problem.OfSort q.sort ofSort ∧
    ps = ofClauses.flatten ++ ofDates ++ ofSort

namespace Problem

theorem ofDate_eq (t : Text) : ofDate t = if t.IsDay then [] else [.invalidDate t] := by
  unfold ofDate
  split
  · rename_i d hd
    rw [if_pos ⟨d, Date.ofText?_eq_some_iff.mp hd⟩]
  · rename_i hd
    rw [if_neg (Date.ofText?_eq_none_iff.mp hd)]

theorem ofDay_iff {t : Text} {ps : List Problem} : OfDay t ps ↔ ps = ofDate t := by
  rw [ofDate_eq]
  constructor
  · rintro (h | h)
    · rw [if_pos h]
    · rw [if_neg h]
  · rintro rfl
    split
    · exact .day ‹_›
    · exact .other ‹_›

theorem ofInterval_self (t : Text) : ofInterval t t = ofDate t :=
  if_pos rfl

theorem ofInterval_of_dayAfter {low high : Text} (h : Text.DayAfter low high) :
    ofInterval low high = [.invalidRange low high] := by
  have hne : high ≠ low := by
    rintro rfl
    exact Text.not_dayAfter_self _ h
  obtain ⟨hlow, hhigh⟩ := h.isDay
  obtain ⟨l, hl⟩ := Date.exists_ofText?_iff.mpr hlow
  obtain ⟨u, hu⟩ := Date.exists_ofText?_iff.mpr hhigh
  rw [ofInterval, if_neg hne, ofDate_eq, if_pos hlow, ofDate_eq, if_pos hhigh]
  simp [hl, hu, (Date.dayAfter_iff hl hu).mp h]

theorem ofInterval_of_not_dayAfter {low high : Text} (hne : low ≠ high)
    (h : ¬ Text.DayAfter low high) : ofInterval low high = ofDate low ++ ofDate high := by
  rw [ofInterval, if_neg hne.symm]
  split
  · rename_i l u hl hu
    rw [if_neg (mt (Date.dayAfter_iff hl hu).mpr h), List.append_nil]
  · exact List.append_nil _

theorem ofEnds_iff {low high : Text} {ps : List Problem} :
    OfEnds low high ps ↔ ps = ofInterval low high := by
  constructor
  · intro h
    cases h with
    | one h => rw [ofInterval_self, ofDay_iff.mp h]
    | two hne hlow hhigh h =>
      rw [ofInterval_of_not_dayAfter hne h, ofDay_iff.mp hlow, ofDay_iff.mp hhigh]
    | turned h => exact (ofInterval_of_dayAfter h).symm
  · rintro rfl
    by_cases hne : low = high
    · subst hne
      rw [ofInterval_self]
      exact .one (ofDay_iff.mpr rfl)
    · by_cases h : Text.DayAfter low high
      · rw [ofInterval_of_dayAfter h]
        exact .turned h
      · rw [ofInterval_of_not_dayAfter hne h]
        exact .two hne (ofDay_iff.mpr rfl) (ofDay_iff.mpr rfl) h

theorem ofInterval_eq_nil_iff {low high : Text} :
    ofInterval low high = [] ↔ low.IsDay ∧ high.IsDay ∧ ¬ Text.DayAfter low high := by
  by_cases hne : low = high
  · subst hne
    have := Text.not_dayAfter_self low
    simp [ofInterval_self, ofDate_eq, this]
  · by_cases h : Text.DayAfter low high
    · simp [ofInterval_of_dayAfter h, h]
    · simp [ofInterval_of_not_dayAfter hne h, ofDate_eq, h]

theorem fieldName_none_iff {name : Text} :
    FieldName.ofText? name = none ↔ name ∉ knownFields := by
  have hnames : FieldName.all.map FieldName.text = knownFields := rfl
  rw [← hnames, FieldName.ofText?, List.find?_eq_none]
  simp only [decide_eq_true_eq, List.mem_map, not_exists, not_and]

theorem sortKey_none_iff {name : Text} :
    SortKey.ofText? name = none ↔ name ∉ knownSortKeys := by
  have hnames : SortKey.names.map (·.1) = knownSortKeys := rfl
  rw [← hnames, SortKey.ofText?, List.lookup_eq_none_iff]
  simp only [List.mem_map, not_exists, not_and, bne_iff_ne, ne_comm]

theorem ofField_eq (name : Text) : ofField name =
    if name ∈ knownFields then [] else [.unknownField name (hint? name knownFields)] := by
  unfold ofField
  split
  · rename_i f hf
    rw [if_pos (by_contra fun hn => by simp [fieldName_none_iff.mpr hn] at hf)]
  · rename_i hn
    rw [if_neg (fieldName_none_iff.mp hn)]
    rfl

theorem ofSortKey_eq (name : Text) : ofSortKey name =
    if name ∈ knownSortKeys then [] else [.unknownSortKey name (hint? name knownSortKeys)] := by
  unfold ofSortKey
  split
  · rename_i k hk
    rw [if_pos (by_contra fun hn => by simp [sortKey_none_iff.mpr hn] at hk)]
  · rename_i hn
    rw [if_neg (sortKey_none_iff.mp hn)]
    rfl

theorem isNumber_iff {value : Text} : isNumber value = true ↔ value.IsDecimal := by
  simp [isNumber, Text.IsDecimal, Char.isDigit, Char.le_def]

instance (t : Text) : Decidable t.IsDecimal :=
  decidable_of_iff (isNumber t = true) isNumber_iff

theorem ofNumber_eq (value : Text) :
    ofNumber value = if value.IsDecimal then [] else [.invalidNumber value] := by
  simp only [ofNumber, isNumber_iff]

theorem ofClause_problems {c : Clause} (hc : c.IsSimple) : OfClause c c.problems := by
  cases c with
  | term t => exact .term t
  | field f =>
    rw [Clause.problems, ofField_eq]
    split
    · exact .field ‹_›
    · exact .otherField ‹_›
  | range r =>
    obtain ⟨quantity, op, value⟩ := r
    cases quantity with
    | date => exact .comparison (ofDay_iff.mpr rfl)
    | views =>
      change OfClause _ (ofNumber value)
      rw [ofNumber_eq]
      split
      · exact .number ‹_›
      · exact .otherNumber ‹_›
  | dates low high => exact .dates (ofEnds_iff.mpr rfl)
  | or l r => exact hc.elim

theorem OfClause.eq_problems {c : Clause} {ps : List Problem} (h : OfClause c ps) :
    ps = c.problems := by
  cases h with
  | term t => rfl
  | field h | otherField h => simp [Clause.problems, ofField_eq, h]
  | number h | otherNumber h => simp [Clause.problems, ofNumber_eq, h]
  | comparison h => exact ofDay_iff.mp h
  | dates h => exact ofEnds_iff.mp h

theorem ofBounds_iff {f : DateFilter} {ps : List Problem} :
    OfBounds f.start f.stop ps ↔ ps = f.problems := by
  obtain ⟨start, stop, _, _⟩ := f
  constructor
  · intro h
    cases h with
    | neither => rfl
    | low h => exact ofDay_iff.mp h
    | high h => exact ofDay_iff.mp h
    | both h => exact ofEnds_iff.mp h
  · rintro rfl
    cases start with
    | none =>
      cases stop with
      | none => exact .neither
      | some high => exact .high (ofDay_iff.mpr rfl)
    | some low =>
      cases stop with
      | none => exact .low (ofDay_iff.mpr rfl)
      | some high => exact .both (ofEnds_iff.mpr rfl)

theorem ofSort_iff {sort : Option SortSpec} {ps : List Problem} :
    OfSort sort ps ↔ ps = sort.elim [] SortSpec.problems := by
  constructor
  · intro h
    cases h with
    | unsorted => rfl
    | key h | otherKey h => simp [SortSpec.problems, ofSortKey_eq, h]
  · rintro rfl
    cases sort with
    | none => exact .unsorted
    | some s =>
      rw [Option.elim_some, SortSpec.problems, ofSortKey_eq]
      split
      · exact .key ‹_›
      · exact .otherKey ‹_›

end Problem

namespace DateFilter

theorem problems_eq_nil_iff {f : DateFilter} :
    f.problems = [] ↔ (∀ t ∈ f.start, t.IsDay) ∧ (∀ t ∈ f.stop, t.IsDay) ∧
      ∀ low ∈ f.start, ∀ high ∈ f.stop, ¬ Text.DayAfter low high := by
  obtain ⟨start, stop, _, _⟩ := f
  cases start with
  | none =>
    cases stop with
    | none => simp [problems]
    | some high => simp [problems, Problem.ofDate_eq]
  | some low =>
    cases stop with
    | none => simp [problems, Problem.ofDate_eq]
    | some high => simp [problems, Problem.ofInterval_eq_nil_iff]

end DateFilter

namespace Query

/-- A clause is in a query, be it among others joined by `OR`, and not only as ends of the interval
of days. -/
def Has (q : Query) (c : Clause) : Prop :=
  (∃ d ∈ q.required, c.In d) ∨ (∃ f ∈ q.fields, c = .field f) ∨ ∃ r ∈ q.views, c = .range r

/-- All that a query names can be found, and all its days and numbers can be read. -/
structure IsSensible (q : Query) : Prop where
  fields : ∀ f, q.Has (.field f) → f.name ∈ knownFields
  numbers : ∀ op value, q.Has (.range ⟨.views, op, value⟩) → value.IsDecimal
  days : ∀ op day, q.Has (.range ⟨.date, op, day⟩) → day.IsDay
  intervals : ∀ low high, q.Has (.dates low high) →
    low.IsDay ∧ high.IsDay ∧ ¬ Text.DayAfter low high
  start : ∀ t ∈ q.dates.start, t.IsDay
  stop : ∀ t ∈ q.dates.stop, t.IsDay
  interval : ∀ low ∈ q.dates.start, ∀ high ∈ q.dates.stop, ¬ Text.DayAfter low high
  sort : ∀ s ∈ q.sort, s.key ∈ knownSortKeys

variable {q : Query} {c : Clause} {ps : List Problem}

theorem mem_clauses_iff : c ∈ q.clauses ↔ q.Has c ∧ c.IsSimple := by
  have hfields : c ∈ q.fields.map .field ↔ (∃ f ∈ q.fields, c = .field f) ∧ c.IsSimple := by
    simp only [List.mem_map, @eq_comm _ _ c]
    refine (and_iff_left_of_imp ?_).symm
    rintro ⟨f, -, rfl⟩
    trivial
  have hviews : c ∈ q.views.map .range ↔ (∃ r ∈ q.views, c = .range r) ∧ c.IsSimple := by
    simp only [List.mem_map, @eq_comm _ _ c]
    refine (and_iff_left_of_imp ?_).symm
    rintro ⟨r, -, rfl⟩
    trivial
  have hrequired : c ∈ q.required.flatMap Clause.leaves ↔
      (∃ d ∈ q.required, c.In d) ∧ c.IsSimple := by
    simp only [List.mem_flatMap, Clause.mem_leaves_iff, ← and_assoc, exists_and_right]
  rw [clauses, List.mem_append, List.mem_append, hrequired, hfields, hviews, Has, or_and_right,
    or_and_right, or_assoc]

theorem comesTo_iff : q.ComesTo ps ↔ ps = q.problems := by
  constructor
  · rintro ⟨pss, ds, ss, hclauses, hdates, hsort, rfl⟩
    have hpss : q.clauses.map Clause.problems = pss := by
      rw [← List.forall₂_eq_eq_eq, List.forall₂_map_left_iff]
      exact hclauses.imp fun _ _ h => h.eq_problems.symm
    rw [problems, List.flatMap_def, hpss, Problem.ofBounds_iff.mp hdates,
      Problem.ofSort_iff.mp hsort]
  · rintro rfl
    refine ⟨_, _, _, ?_, Problem.ofBounds_iff.mpr rfl, Problem.ofSort_iff.mpr rfl,
      by rw [problems, List.flatMap_def]⟩
    rw [List.forall₂_map_right_iff, List.forall₂_same]
    exact fun c hc => Problem.ofClause_problems (mem_clauses_iff.mp hc).2

theorem problems_eq_nil_iff : q.problems = [] ↔ q.IsSensible := by
  have hsort : q.sort.elim [] SortSpec.problems = [] ↔ ∀ s ∈ q.sort, s.key ∈ knownSortKeys := by
    cases q.sort with
    | none => simp
    | some s => simp [SortSpec.problems, Problem.ofSortKey_eq]
  rw [problems, List.append_eq_nil_iff, List.append_eq_nil_iff, List.flatMap_eq_nil_iff, hsort,
    DateFilter.problems_eq_nil_iff]
  simp only [mem_clauses_iff, and_imp]
  constructor
  · rintro ⟨⟨hc, hstart, hstop, hinterval⟩, hs⟩
    refine ⟨fun f hf => ?_, fun op value hv => ?_, fun op day hd => ?_, fun low high hd => ?_,
      hstart, hstop, hinterval, hs⟩
    · simpa [Clause.problems, Problem.ofField_eq] using hc _ hf trivial
    · simpa [Clause.problems, Problem.ofNumber_eq] using hc _ hv trivial
    · simpa [Clause.problems, Problem.ofDate_eq] using hc _ hd trivial
    · exact Problem.ofInterval_eq_nil_iff.mp (hc _ hd trivial)
  · intro h
    refine ⟨⟨fun c hc hsimple => ?_, h.start, h.stop, h.interval⟩, h.sort⟩
    cases c with
    | term t => rfl
    | field f => simpa [Clause.problems, Problem.ofField_eq] using h.fields f hc
    | range r =>
      obtain ⟨quantity, op, value⟩ := r
      cases quantity with
      | date => simpa [Clause.problems, Problem.ofDate_eq] using h.days op value hc
      | views => simpa [Clause.problems, Problem.ofNumber_eq] using h.numbers op value hc
    | dates low high => exact Problem.ofInterval_eq_nil_iff.mpr (h.intervals low high hc)
    | or l r => exact hsimple.elim

theorem problems_required (hc : c.IsSimple) : problems { required := [c] } = c.problems := by
  have hleaves : c.leaves = [c] := by
    cases c with
    | or l r => exact hc.elim
    | _ => rfl
  simp [problems, clauses, hleaves, DateFilter.problems]

theorem perm_leaves (cs : List Clause) :
    ((cs.filter fun c => !Clause.isFilter c).flatMap Clause.leaves ++
      (cs.filterMap Clause.field?).map Clause.field ++
        (cs.filterMap Clause.views?).map Clause.range ++ cs.filter Clause.isOfDays).Perm
      (cs.flatMap Clause.leaves) := by
  induction cs with
  | nil => rfl
  | cons c cs ih =>
    rw [List.perm_iff_count] at ih ⊢
    -- how often `e` is counted in each of the places that `c` goes to
    intro e
    have ih := ih e
    cases c with
    | range r =>
      obtain ⟨quantity, op, value⟩ := r
      cases quantity <;>
        simp [Clause.isFilter, Clause.field?, Clause.views?, Clause.isOfDays, Clause.leaves,
          List.filterMap_cons, List.count_cons] at ih ⊢ <;> omega
    | _ =>
      simp [Clause.isFilter, Clause.field?, Clause.views?, Clause.isOfDays, Clause.leaves,
        List.filter_cons, List.filterMap_cons, List.count_cons] at ih ⊢
      omega

theorem Keeps.perm_leaves {cs : List Clause} (h : q.Keeps cs) :
    (q.clauses ++ cs.filter Clause.isOfDays).Perm (cs.flatMap Clause.leaves) := by
  rw [clauses, h.required, h.fields, h.views]
  exact Query.perm_leaves cs

end Query

namespace Clause

theorem flatMap_leaves_of_map_ofRun? {runs : List (List Token)} {cs : List Clause}
    (h : runs.map ofRun? = cs.map some) : cs.flatMap leaves = runs.flatten.filterMap ofToken? := by
  induction runs generalizing cs with
  | nil =>
    obtain rfl := List.map_eq_nil_iff.mp h.symm
    rfl
  | cons run runs ih =>
    cases cs with
    | nil => simp at h
    | cons c cs =>
      obtain ⟨hrun, hruns⟩ := List.cons_eq_cons.mp h
      rw [List.flatMap_cons, List.flatten_cons, List.filterMap_append, leaves_ofRun? hrun,
        ih hruns]

theorem filterMap_ofToken?_filter (ts : List Token) :
    (ts.filter Token.isClause).filterMap ofToken? = ts.filterMap ofToken? := by
  rw [List.filterMap_filter]
  refine List.filterMap_congr fun t _ => ?_
  rw [Token.isClause_iff_ofToken?_isSome]
  cases ofToken? t <;> rfl

end Clause

namespace Query

open Token (orRuns)

/-- The problems of a query from tokens. They are those of its clauses, taken one by one, of its
interval of days and of its sort directive, by the rules for each of them and in this order. Each
clause among the tokens is such a clause once, or else stands alone and sets ends of the interval.
There are no problems if and only if the query is sensible. -/
theorem problems_of_ofTokens {ts : List Token} {q : Query} (h : ofTokens ts = .ok q) :
    (∀ ps, q.ComesTo ps ↔ ps = q.problems) ∧
    (∀ c ∈ q.clauses, Problem.OfClause c (problems { required := [c] }) ∧
      problems { required := [c] } <:+: q.problems) ∧
    (∃ cs, (orRuns ts).map Clause.ofRun? = cs.map some ∧ q.dates.Bounds cs ∧
      (q.clauses ++ cs.filter Clause.isOfDays).Perm (ts.filterMap Clause.ofToken?)) ∧
    (q.problems = [] ↔ q.IsSensible) := by
  refine ⟨fun ps => comesTo_iff, fun c hc => ?_, ?_, problems_eq_nil_iff⟩
  · have hsimple := (mem_clauses_iff.mp hc).2
    rw [problems_required hsimple]
    refine ⟨Problem.ofClause_problems hsimple, ?_⟩
    obtain ⟨before, after, hsplit⟩ := List.append_of_mem hc
    rw [problems, hsplit]
    simp only [List.flatMap_append, List.flatMap_cons, List.append_assoc]
    exact List.infix_append' _ _ _
  · obtain ⟨s, cs, -, hruns, hkeeps, -⟩ := exists_keeps_of_ofTokens h
    refine ⟨cs, hruns, hkeeps.dates, ?_⟩
    -- the clauses of the runs are those of the tokens, taken apart again at every `OR`
    rw [← Clause.filterMap_ofToken?_filter, ← Token.flatten_orRuns,
      ← Clause.flatMap_leaves_of_map_ofRun? hruns]
    exact hkeeps.perm_leaves

/-- Something is wrong with every part, and a text that is no day is both ends of the interval. -/
theorem problems_of_ofTokens_all_wrong :
    let ts : List Token := [.field "titel".toList ['x'] false, .connective .or,
      .range dateField .gt "2024-13-01".toList, .range "views".toList .eq "many".toList,
      .range dateField .eq "soon".toList, .sort "rank".toList "asc".toList]
    ∃ q, ofTokens ts = .ok q ∧ q.dates.start = q.dates.stop ∧ ¬ q.IsSensible ∧
      q.ComesTo [.unknownField "titel".toList (some "title".toList),
        .invalidDate "2024-13-01".toList, .invalidNumber "many".toList, .invalidDate "soon".toList,
        .unknownSortKey "rank".toList none] := by
  intro ts
  let q : Query := {
    required := [.or (.field ⟨"titel".toList, ['x'], false⟩)
      (.range ⟨.date, .gt, "2024-13-01".toList⟩)]
    dates := { start := some "soon".toList, stop := some "soon".toList }
    views := [⟨.views, .eq, "many".toList⟩]
    sort := some ⟨"rank".toList, "asc".toList⟩ }
  have hq : ofTokens ts = .ok q := rfl
  obtain ⟨hcomes, -, -, hsensible⟩ := problems_of_ofTokens hq
  refine ⟨q, hq, rfl, ?_, (hcomes _).mpr (by decide +kernel)⟩
  rw [← hsensible]
  decide +kernel

end Query

end ArticleArchive
