import ArticleArchive.Proofs.Query.Meaning
import ArticleArchive.Proofs.Results
import ArticleArchive.Proofs.Text.Numerals

namespace ArticleArchive

/-- A test stops at a numeral that is too long (`stuck`), or else it decides `holds`. -/
def Settles (r : Except MatchError Bool) (stuck holds : Prop) : Prop :=
  (stuck → r = .error .unreadableNumber) ∧ (¬ stuck → ∃ b, r = .ok b ∧ (b = true ↔ holds))

namespace Settles

variable {x y : Except MatchError Bool} {s t p q : Prop}

theorem of_ok {b : Bool} (h : b = true ↔ p) : Settles (.ok b) False p :=
  ⟨False.elim, fun _ => ⟨b, rfl, h⟩⟩

theorem congr (h : Settles x s p) (hs : s ↔ t) (hp : p ↔ q) : Settles x t q := by
  rwa [← propext hs, ← propext hp]

theorem and (hx : Settles x s p) (hy : Settles y t q) :
    Settles (x >>= fun b => if b = true then y else .ok false) (s ∨ p ∧ t) (p ∧ q) := by
  constructor
  · intro h
    by_cases hs : s
    · rw [hx.1 hs]
      rfl
    · obtain ⟨b, rfl, hb⟩ := hx.2 hs
      obtain ⟨hp, ht⟩ := h.resolve_left hs
      rw [hb.mpr hp]
      exact hy.1 ht
  · intro h
    rw [not_or, not_and] at h
    obtain ⟨b, rfl, hb⟩ := hx.2 h.1
    cases b with
    | true =>
      have hp := hb.mp rfl
      obtain ⟨c, rfl, hc⟩ := hy.2 (h.2 hp)
      exact ⟨c, rfl, by simp [hc, hp]⟩
    | false =>
      have hp : ¬ p := fun hp => by simpa using hb.mpr hp
      exact ⟨false, rfl, by simp [hp]⟩

theorem or (hx : Settles x s p) (hy : Settles y t q) :
    Settles (x >>= fun b => if b = true then .ok true else y) (s ∨ ¬ p ∧ t) (p ∨ q) := by
  constructor
  · intro h
    by_cases hs : s
    · rw [hx.1 hs]
      rfl
    · obtain ⟨b, rfl, hb⟩ := hx.2 hs
      obtain ⟨hp, ht⟩ := h.resolve_left hs
      have hb : b = false := by simpa [hp] using hb
      rw [hb]
      exact hy.1 ht
  · intro h
    rw [not_or, not_and] at h
    obtain ⟨b, rfl, hb⟩ := hx.2 h.1
    cases b with
    | true => exact ⟨true, rfl, by simp [hb.mp rfl]⟩
    | false =>
      have hp : ¬ p := fun hp => by simpa using hb.mpr hp
      obtain ⟨c, rfl, hc⟩ := hy.2 (h.2 hp)
      exact ⟨c, rfl, by simp [hc, hp]⟩

end Settles

/-- Going through a list and stopping at the first item that does not hold, one comes to an item
that is stuck. -/
def StuckIn {α : Type} (stuck holds : α → Prop) : List α → Prop
  | [] => False
  | x :: xs => stuck x ∨ holds x ∧ StuckIn stuck holds xs

theorem StuckIn.exists_mem {α : Type} {stuck holds : α → Prop} {xs : List α}
    (h : StuckIn stuck holds xs) : ∃ x ∈ xs, stuck x := by
  induction xs with
  | nil => exact h.elim
  | cons x xs ih =>
    rcases h with h | ⟨-, h⟩
    · exact ⟨x, List.mem_cons_self, h⟩
    · obtain ⟨y, hy, hs⟩ := ih h
      exact ⟨y, List.mem_cons_of_mem _ hy, hs⟩

theorem Query.settles_all {α : Type} {test : α → Except MatchError Bool} {stuck holds : α → Prop}
    {xs : List α} (h : ∀ x ∈ xs, Settles (test x) (stuck x) (holds x)) :
    Settles (Query.all test xs) (StuckIn stuck holds xs) (∀ x ∈ xs, holds x) := by
  induction xs with
  | nil => exact .of_ok (by simp)
  | cons x xs ih =>
    have hxs := ih fun y hy => h y (List.mem_cons_of_mem _ hy)
    exact ((h x List.mem_cons_self).and hxs).congr Iff.rfl List.forall_mem_cons.symm

/-- Whether a mark is one of the five. -/
def Comparison.isKnown : Comparison → Bool
  | other _ => false
  | _ => true

theorem Query.settles_compare {op : Comparison} (h : op.isKnown = true) (x y : Int) :
    Settles (Query.compare op x y) False (op.Relates x y) := by
  cases op with
  | other m => simp [Comparison.isKnown] at h
  | _ => exact .of_ok (by simp [Comparison.Relates])

namespace RangeClause

def Holds (r : RangeClause) (a : Article) : Prop :=
  match r.quantity with
  | .date => a.DayCompares r.op r.value
  | .views => a.ViewsCompare r.op r.value

/-- A number of views with more digits than a numeral may have. -/
def TooLong (r : RangeClause) : Prop :=
  r.quantity = .views ∧ Text.maxDigits < r.value.length

theorem settles_compareDay {op : Comparison} (ho : op.isKnown = true) (a : Article)
    {value : Text} {d : Date} (hd : Date.ofText? value = some d) :
    Settles (compareDay op a.createdAt.date value) False (a.DayCompares op value) := by
  have h := Query.settles_compare ho a.createdAt.date.rank d.rank
  have hcompare : compareDay op a.createdAt.date value =
      Query.compare op a.createdAt.date.rank d.rank := by
    cases op with
    | other m => simp [Comparison.isKnown] at ho
    | _ => simp only [compareDay, hd]
  rw [hcompare]
  exact h.congr Iff.rfl (by simp [Article.DayCompares, hd])

theorem settles_compareViews {op : Comparison} (ho : op.isKnown = true) (a : Article)
    {value : Text} (hv : Problem.isNumber value = true) :
    Settles (Query.readNumber value >>= fun n => Query.compare op a.viewCount n)
      (Text.maxDigits < value.length) (a.ViewsCompare op value) := by
  obtain ⟨hne, hall⟩ : value ≠ [] ∧ value.all Char.isDigit = true := by
    simpa [Problem.isNumber] using hv
  have hi := Text.integer?_of_all hne hall
  by_cases hl : value.length ≤ Text.maxDigits
  · rw [if_pos hl] at hi
    have h := Query.settles_compare ho a.viewCount (Text.asciiValue value)
    simp only [Query.readNumber, hi]
    exact h.congr (by simp [hl]) Iff.rfl
  · rw [if_neg hl] at hi
    simp only [Query.readNumber, hi]
    exact ⟨fun _ => rfl, fun h => absurd (by omega) h⟩

end RangeClause

namespace Problem

theorem ofDate_eq_nil_iff {value : Text} :
    ofDate value = [] ↔ ∃ d, Date.ofText? value = some d := by
  unfold ofDate
  split
  · rename_i d hd
    exact iff_of_true rfl ⟨d, hd⟩
  · rename_i hd
    exact iff_of_false (List.cons_ne_nil _ _) (by simp [hd])

theorem ofNumber_eq_nil_iff {value : Text} : ofNumber value = [] ↔ isNumber value = true := by
  simp [ofNumber]

theorem dates_of_ofInterval_eq_nil {low high : Text} (h : ofInterval low high = []) :
    (∃ d, Date.ofText? low = some d) ∧ ∃ d, Date.ofText? high = some d := by
  unfold ofInterval at h
  split at h
  · rename_i he
    subst he
    exact ⟨ofDate_eq_nil_iff.mp h, ofDate_eq_nil_iff.mp h⟩
  · simp only [List.append_eq_nil_iff] at h
    exact ⟨ofDate_eq_nil_iff.mp h.1.1, ofDate_eq_nil_iff.mp h.1.2⟩

end Problem

namespace RangeClause

theorem settles_accepts {r : RangeClause} (ho : r.op.isKnown = true)
    (hp : (Clause.range r).problems = []) (a : Article) :
    Settles (r.accepts a) r.TooLong (r.Holds a) := by
  obtain ⟨quantity, op, value⟩ := r
  cases quantity with
  | date =>
    obtain ⟨d, hd⟩ := Problem.ofDate_eq_nil_iff.mp hp
    exact (settles_compareDay ho a hd).congr (by simp [TooLong]) Iff.rfl
  | views =>
    have h := settles_compareViews ho a (Problem.ofNumber_eq_nil_iff.mp hp)
    cases op with
    | other m => simp [Comparison.isKnown] at ho
    | _ => exact h.congr (by simp [TooLong]) Iff.rfl

end RangeClause

namespace Clause

/-- Whether a clause holds of an article. -/
def Holds (a : Article) : Clause → Prop
  | term t => a.Mentions t.text
  | field f => a.FieldMatches f.name f.value
  | range r => r.Holds a
  | dates low high => a.DayWithin low high
  | or l r => l.Holds a ∨ r.Holds a

/-- Whether the test of a clause, from left to right, comes to a number that is too long. -/
def Stuck (a : Article) : Clause → Prop
  | range r => r.TooLong
  | or l r => l.Stuck a ∨ ¬ l.Holds a ∧ r.Stuck a
  | _ => False

theorem exists_tooLong {c : Clause} {a : Article} (h : c.Stuck a) :
    ∃ r, range r ∈ c.leaves ∧ r.TooLong := by
  induction c with
  | range r => exact ⟨r, List.mem_cons_self, h⟩
  | or l r ihl ihr =>
    rcases h with h | ⟨-, h⟩
    · obtain ⟨d, hd, hl⟩ := ihl h
      exact ⟨d, List.mem_append_left _ hd, hl⟩
    · obtain ⟨d, hd, hl⟩ := ihr h
      exact ⟨d, List.mem_append_right _ hd, hl⟩
  | _ => exact h.elim

/-- A clause all parts of which are free of problems and compare by a known mark. -/
def Sound (c : Clause) : Prop :=
  ∀ d ∈ c.leaves, d.problems = [] ∧ ∀ r, d = range r → r.op.isKnown = true

theorem sound_or_iff {l r : Clause} : (or l r).Sound ↔ l.Sound ∧ r.Sound := by
  simp only [Sound, leaves, List.forall_mem_append]

end Clause

theorem SearchText.contains_ofArticle_iff {a : Article} {t : Text} :
    (SearchText.ofArticle a).contains (Text.fold t) = true ↔ a.Mentions t := by
  simp [contains, ofArticle, Article.Mentions, Text.occursIn_iff, or_assoc]

theorem FieldName.ofText?_eq_some_iff {t : Text} {f : FieldName} :
    FieldName.ofText? t = some f ↔ t = f.text := by
  constructor
  · intro h
    have := List.find?_some h
    simpa [eq_comm] using this
  · rintro rfl
    cases f <;> rfl

theorem FieldClause.accepts_iff {f : FieldClause} {a : Article} :
    f.accepts a (SearchText.ofArticle a) = true ↔ a.FieldMatches f.name f.value := by
  have hname (n : FieldName) : f.name = n.text ↔ FieldName.ofText? f.name = some n :=
    FieldName.ofText?_eq_some_iff.symm
  rw [Article.FieldMatches, hname, hname, hname, accepts]
  cases FieldName.ofText? f.name with
  | none => simp
  | some n => cases n <;> simp [SearchText.ofArticle, Text.occursIn_iff, Option.any_eq_true]

theorem Clause.settles_dayWithin_of_days {low high : Text} (hlow : ∃ d, Date.ofText? low = some d)
    (hhigh : ∃ d, Date.ofText? high = some d) (a : Article) :
    Settles (dayWithin low high a.createdAt.date) False (a.DayWithin low high) := by
  obtain ⟨l, hl⟩ := hlow
  obtain ⟨u, hu⟩ := hhigh
  have hw : dayWithin low high a.createdAt.date =
      .ok (decide (l.rank ≤ a.createdAt.date.rank) && decide (a.createdAt.date.rank ≤ u.rank)) := by
    unfold dayWithin
    simp only [Query.readDay, hl, hu]
    by_cases hlt : a.createdAt.date.rank < l.rank
    · have hle : ¬ l.rank ≤ a.createdAt.date.rank := by omega
      simp [bind, Except.bind, pure, Except.pure, hlt, hle]
    · have hle : l.rank ≤ a.createdAt.date.rank := by omega
      simp [bind, Except.bind, pure, Except.pure, hlt, hle]
  rw [hw]
  exact .of_ok (by simp [Article.DayWithin, hl, hu])

theorem Clause.settles_dayWithin {low high : Text} (h : Problem.ofInterval low high = [])
    (a : Article) :
    Settles (dayWithin low high a.createdAt.date) False (a.DayWithin low high) :=
  have ⟨hlow, hhigh⟩ := Problem.dates_of_ofInterval_eq_nil h
  settles_dayWithin_of_days hlow hhigh a

theorem Clause.settles_accepts {c : Clause} (h : c.Sound) (a : Article) :
    Settles (c.accepts a (SearchText.ofArticle a)) (c.Stuck a) (c.Holds a) := by
  induction c with
  | term t => exact .of_ok SearchText.contains_ofArticle_iff
  | field f => exact .of_ok FieldClause.accepts_iff
  | range r =>
    obtain ⟨hp, ho⟩ := h (range r) List.mem_cons_self
    exact RangeClause.settles_accepts (ho r rfl) hp a
  | dates low high => exact settles_dayWithin (h _ List.mem_cons_self).1 a
  | or l r ihl ihr =>
    obtain ⟨hl, hr⟩ := sound_or_iff.mp h
    exact (ihl hl).or (ihr hr)

/-- A day is after the one that a text names or, if that one is included, the same. -/
def Date.IsFrom (day : Date) (t : Text) (included : Bool) : Prop :=
  ∃ d ∈ Date.ofText? t, d.rank < day.rank ∨ day.rank = d.rank ∧ included = true

def Date.IsUntil (day : Date) (t : Text) (included : Bool) : Prop :=
  ∃ d ∈ Date.ofText? t, day.rank < d.rank ∨ day.rank = d.rank ∧ included = true

namespace DateFilter

def Holds (f : DateFilter) (day : Date) : Prop :=
  (∀ t ∈ f.start, day.IsFrom t f.startIncluded) ∧ ∀ t ∈ f.stop, day.IsUntil t f.stopIncluded

theorem dates_of_problems_eq_nil {f : DateFilter} (h : f.problems = []) :
    (∀ t ∈ f.start, ∃ d, Date.ofText? t = some d) ∧
      ∀ t ∈ f.stop, ∃ d, Date.ofText? t = some d := by
  unfold problems at h
  split at h
  · rename_i hs he
    obtain ⟨hl, hu⟩ := Problem.dates_of_ofInterval_eq_nil h
    simp [hs, he, hl, hu]
  · rename_i hs he
    simp [hs, he, Problem.ofDate_eq_nil_iff.mp h]
  · rename_i hs he
    simp [hs, he, Problem.ofDate_eq_nil_iff.mp h]
  · rename_i hs he
    simp [hs, he]

theorem settles_afterStart {f : DateFilter} (day : Date)
    (h : ∀ t ∈ f.start, ∃ d, Date.ofText? t = some d) :
    Settles (f.afterStart day) False (∀ t ∈ f.start, day.IsFrom t f.startIncluded) := by
  unfold afterStart
  cases hs : f.start with
  | none => exact .of_ok (by simp)
  | some t =>
    obtain ⟨d, hd⟩ := h t hs
    simp only [Query.readDay, hd]
    exact .of_ok (by simp [Date.IsFrom, hd])

theorem settles_beforeStop {f : DateFilter} (day : Date)
    (h : ∀ t ∈ f.stop, ∃ d, Date.ofText? t = some d) :
    Settles (f.beforeStop day) False (∀ t ∈ f.stop, day.IsUntil t f.stopIncluded) := by
  unfold beforeStop
  cases hs : f.stop with
  | none => exact .of_ok (by simp)
  | some t =>
    obtain ⟨d, hd⟩ := h t hs
    simp only [Query.readDay, hd]
    exact .of_ok (by simp [Date.IsUntil, hd])

theorem settles_contains_of_days {f : DateFilter} (day : Date)
    (hs : ∀ t ∈ f.start, ∃ d, Date.ofText? t = some d)
    (he : ∀ t ∈ f.stop, ∃ d, Date.ofText? t = some d) :
    Settles (f.contains day) False (f.Holds day) :=
  ((settles_afterStart day hs).and (settles_beforeStop day he)).congr (by simp) Iff.rfl

theorem settles_contains {f : DateFilter} (h : f.problems = []) (day : Date) :
    Settles (f.contains day) False (f.Holds day) :=
  have ⟨hs, he⟩ := dates_of_problems_eq_nil h
  settles_contains_of_days day hs he

end DateFilter

namespace Query

/-- Whether an article has all that a query requires and nothing that it excludes. -/
def Holds (q : Query) (a : Article) : Prop :=
  (∀ f ∈ q.fields, a.FieldMatches f.name f.value) ∧ q.dates.Holds a.createdAt.date ∧
    (∀ r ∈ q.views, r.Holds a) ∧ (∀ c ∈ q.required, c.Holds a) ∧
    ∀ t ∈ q.excluded, ¬ a.Mentions t.text

/-- Whether the test of an article comes to a number that is too long: the fields and the interval
of days let it pass, and so do all conditions before the one with the number. -/
def Stuck (q : Query) (a : Article) : Prop :=
  (∀ f ∈ q.fields, a.FieldMatches f.name f.value) ∧ q.dates.Holds a.createdAt.date ∧
    (StuckIn RangeClause.TooLong (fun r => r.Holds a) q.views ∨
      (∀ r ∈ q.views, r.Holds a) ∧ StuckIn (Clause.Stuck a) (Clause.Holds a) q.required)

/-- A query without problems that compares by known marks only. -/
structure Sound (q : Query) : Prop where
  problems : q.problems = []
  marks : ∀ r, Clause.range r ∈ q.clauses → r.op.isKnown = true

theorem Stuck.exists_tooLong {q : Query} {a : Article} (h : q.Stuck a) :
    ∃ r, Clause.range r ∈ q.clauses ∧ r.TooLong := by
  obtain ⟨-, -, h | ⟨-, h⟩⟩ := h
  · obtain ⟨r, hr, hl⟩ := h.exists_mem
    exact ⟨r, by simp [clauses, hr], hl⟩
  · obtain ⟨c, hc, hs⟩ := h.exists_mem
    obtain ⟨r, hr, hl⟩ := Clause.exists_tooLong hs
    refine ⟨r, ?_, hl⟩
    simp only [clauses, List.mem_append, List.mem_flatMap]
    exact .inl (.inl ⟨c, hc, hr⟩)

theorem accepts_eq (q : Query) (a : Article) :
    q.accepts a = (do
      let s := SearchText.ofArticle a
      if q.fields.all fun f => f.accepts a s then
        if ← q.dates.contains a.createdAt.date then
          if ← all (fun r => RangeClause.accepts r a) q.views then
            if ← all (Clause.accepts a s) q.required then return !q.isExcluded s
            else return false
          else return false
        else return false
      else return false) := by
  simp only [accepts, Bool.not_eq_true', ← Bool.not_eq_true, ite_not]

theorem Sound.clauses {q : Query} (h : q.Sound) {c : Clause} (hc : c ∈ q.clauses) :
    c.problems = [] ∧ ∀ r, c = .range r → r.op.isKnown = true := by
  have hp := h.problems
  simp only [Query.problems, List.append_eq_nil_iff, List.flatMap_eq_nil_iff] at hp
  exact ⟨hp.1.1 c hc, fun r hr => h.marks r (hr ▸ hc)⟩

theorem Sound.dates {q : Query} (h : q.Sound) : q.dates.problems = [] := by
  have hp := h.problems
  simp only [Query.problems, List.append_eq_nil_iff] at hp
  exact hp.1.2

theorem Sound.sort {q : Query} (h : q.Sound) : ∀ s ∈ q.sort, s.problems = [] := by
  have hp := h.problems
  simp only [Query.problems, List.append_eq_nil_iff] at hp
  intro s hs
  simpa [show q.sort = some s from hs] using hp.2

theorem Sound.required {q : Query} (h : q.Sound) {c : Clause} (hc : c ∈ q.required) : c.Sound := by
  intro d hd
  refine h.clauses ?_
  simp only [Query.clauses, List.mem_append, List.mem_flatMap]
  exact .inl (.inl ⟨c, hc, hd⟩)

theorem Sound.views {q : Query} (h : q.Sound) {r : RangeClause} (hr : r ∈ q.views) :
    (Clause.range r).problems = [] ∧ r.op.isKnown = true := by
  have hc : Clause.range r ∈ q.clauses := by simp [Query.clauses, hr]
  exact ⟨(h.clauses hc).1, h.marks r hc⟩

theorem isExcluded_iff {q : Query} {a : Article} :
    (!q.isExcluded (SearchText.ofArticle a)) = true ↔ ∀ t ∈ q.excluded, ¬ a.Mentions t.text := by
  simp [isExcluded, ← SearchText.contains_ofArticle_iff]

/-- The test of a sound query decides whether the query holds, unless it stops at a number that is
too long. -/
theorem settles_accepts {q : Query} (h : q.Sound) (a : Article) :
    Settles (q.accepts a) (q.Stuck a) (q.Holds a) := by
  have hfields : Settles (.ok (q.fields.all fun f => f.accepts a (SearchText.ofArticle a))) False
      (∀ f ∈ q.fields, a.FieldMatches f.name f.value) :=
    .of_ok (by simp [FieldClause.accepts_iff])
  have hdates := DateFilter.settles_contains h.dates a.createdAt.date
  have hviews := settles_all fun r hr =>
    RangeClause.settles_accepts (h.views hr).2 (h.views hr).1 a
  have hrequired := settles_all fun c hc => Clause.settles_accepts (h.required hc) a
  have hexcluded := Settles.of_ok (isExcluded_iff (q := q) (a := a))
  rw [accepts_eq]
  -- the tests in the order in which they are made; fields, days and exclusions are never stuck
  refine (hfields.and (hdates.and (hviews.and (hrequired.and hexcluded)))).congr ?_ Iff.rfl
  simp [Stuck]

theorem execute_eq_filter {q : Query} {corpus : List Article} {p : Article → Prop}
    [DecidablePred p] (h : ∀ a ∈ corpus, q.accepts a = .ok (decide (p a))) :
    q.execute corpus = .ok (corpus.filter fun a => p a) := by
  induction corpus with
  | nil => rfl
  | cons a as ih =>
    rw [execute, h a List.mem_cons_self, ih fun b hb => h b (List.mem_cons_of_mem _ hb)]
    by_cases hp : p a
    · simp [bind, Except.bind, pure, Except.pure, hp]
    · simp [bind, Except.bind, pure, Except.pure, hp]

theorem execute_sublist {q : Query} {corpus found : List Article}
    (h : q.execute corpus = .ok found) : found.Sublist corpus := by
  induction corpus generalizing found with
  | nil =>
    obtain rfl := Except.ok.inj h
    exact .refl []
  | cons a as ih =>
    obtain ⟨b, -, h⟩ := bind_eq_ok_iff.mp h
    obtain ⟨rest, hrest, h⟩ := bind_eq_ok_iff.mp h
    obtain rfl := Except.ok.inj h
    cases b with
    | false => exact (ih hrest).cons a
    | true => exact (ih hrest).cons_cons a

theorem execute_eq_error {q : Query} {corpus : List Article} {e : MatchError}
    (h : q.execute corpus = .error e) : ∃ a ∈ corpus, q.accepts a = .error e := by
  induction corpus with
  | nil => simp [execute] at h
  | cons a as ih =>
    rcases bind_eq_error_iff.mp h with h | ⟨b, -, h⟩
    · exact ⟨a, List.mem_cons_self, h⟩
    · rcases bind_eq_error_iff.mp h with h | ⟨rest, -, h⟩
      · obtain ⟨c, hc, hce⟩ := ih h
        exact ⟨c, List.mem_cons_of_mem _ hc, hce⟩
      · simp [pure, Except.pure] at h

theorem accepts_ok_of_execute {q : Query} {corpus found : List Article}
    (h : q.execute corpus = .ok found) : ∀ a ∈ corpus, ∃ b, q.accepts a = .ok b := by
  induction corpus generalizing found with
  | nil => simp
  | cons a as ih =>
    obtain ⟨b, hb, h⟩ := bind_eq_ok_iff.mp h
    obtain ⟨rest, hrest, -⟩ := bind_eq_ok_iff.mp h
    intro c hc
    rcases List.mem_cons.mp hc with rfl | hc
    · exact ⟨b, hb⟩
    · exact ih hrest c hc

end Query

end ArticleArchive
