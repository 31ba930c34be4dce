import ArticleArchive.Proofs.Query.Chain
import ArticleArchive.Proofs.Query.Evaluation

namespace ArticleArchive

namespace DateFilter

variable {f f' : DateFilter} {t : Text} {b : Bool}

theorem setStart_eq_ok (h : f.setStart t b = .ok f') :
    f.start = none ∧ f' = { f with start := some t, startIncluded := b } := by
  unfold setStart at h
  split at h
  · simp at h
  · rename_i hs
    exact ⟨by simpa using hs, (Except.ok.inj h).symm⟩

theorem setStop_eq_ok (h : f.setStop t b = .ok f') :
    f.stop = none ∧ f' = { f with stop := some t, stopIncluded := b } := by
  unfold setStop at h
  split at h
  · simp at h
  · rename_i hs
    exact ⟨by simpa using hs, (Except.ok.inj h).symm⟩

theorem holds_setStart (h : f.setStart t b = .ok f') (day : Date) :
    f'.Holds day ↔ f.Holds day ∧ day.IsFrom t b := by
  obtain ⟨hs, rfl⟩ := setStart_eq_ok h
  simp [Holds, hs, and_comm]

theorem holds_setStop (h : f.setStop t b = .ok f') (day : Date) :
    f'.Holds day ↔ f.Holds day ∧ day.IsUntil t b := by
  obtain ⟨hs, rfl⟩ := setStop_eq_ok h
  simp [Holds, hs]

theorem holds_setBoth {low high : Text} (h : f.setBoth low high = .ok f') (day : Date) :
    f'.Holds day ↔ f.Holds day ∧ day.IsFrom low true ∧ day.IsUntil high true := by
  obtain ⟨g, hg, hf⟩ := bind_eq_ok_iff.mp h
  rw [holds_setStop hf, holds_setStart hg, and_assoc]

end DateFilter

theorem Date.isFrom_true_iff {day : Date} {t : Text} :
    day.IsFrom t true ↔ ∃ d ∈ Date.ofText? t, d.rank ≤ day.rank := by
  simp only [IsFrom, and_true, Nat.le_iff_lt_or_eq, eq_comm]

theorem Date.isUntil_true_iff {day : Date} {t : Text} :
    day.IsUntil t true ↔ ∃ d ∈ Date.ofText? t, day.rank ≤ d.rank := by
  simp only [IsUntil, and_true, Nat.le_iff_lt_or_eq]

theorem Article.dayWithin_iff {a : Article} {low high : Text} :
    a.DayWithin low high ↔
      a.createdAt.date.IsFrom low true ∧ a.createdAt.date.IsUntil high true := by
  rw [Date.isFrom_true_iff, Date.isUntil_true_iff]
  constructor
  · rintro ⟨l, hl, u, hu, hle, hge⟩
    exact ⟨⟨l, hl, hle⟩, u, hu, hge⟩
  · rintro ⟨⟨l, hl, hle⟩, u, hu, hge⟩
    exact ⟨l, hl, u, hu, hle, hge⟩

theorem Article.dayCompares_eq_iff {a : Article} {t : Text} :
    a.DayCompares .eq t ↔
      a.createdAt.date.IsFrom t true ∧ a.createdAt.date.IsUntil t true := by
  rw [Date.isFrom_true_iff, Date.isUntil_true_iff]
  constructor
  · rintro ⟨d, hd, h⟩
    have hrank : a.createdAt.date.rank = d.rank := Int.ofNat_inj.mp h
    exact ⟨⟨d, hd, hrank.ge⟩, d, hd, hrank.le⟩
  · rintro ⟨⟨d, hd, hle⟩, e, he, hge⟩
    obtain rfl : d = e := Option.mem_unique hd he
    exact ⟨d, hd, Int.ofNat_inj.mpr (Nat.le_antisymm hge hle)⟩

theorem DateFilter.holds_addComparison {f f' : DateFilter} {op : Comparison} {t : Text}
    (ho : op.isKnown = true) (h : f.addComparison op t = .ok f') (a : Article) :
    f'.Holds a.createdAt.date ↔ f.Holds a.createdAt.date ∧ a.DayCompares op t := by
  cases op with
  | gt =>
    rw [holds_setStart h]
    simp [Article.DayCompares, Date.IsFrom, Comparison.Relates]
  | ge =>
    rw [holds_setStart h]
    simp [Article.DayCompares, Date.IsFrom, Comparison.Relates, Nat.le_iff_lt_or_eq, eq_comm]
  | lt =>
    rw [holds_setStop h]
    simp [Article.DayCompares, Date.IsUntil, Comparison.Relates]
  | le =>
    rw [holds_setStop h]
    simp [Article.DayCompares, Date.IsUntil, Comparison.Relates, Nat.le_iff_lt_or_eq]
  -- the only known mark that bounds both ends
  | eq => rw [holds_setBoth h, Article.dayCompares_eq_iff]
  | other m => simp [Comparison.isKnown] at ho

namespace Query

theorem addClause_eq_ok {q q' : Query} {c : Clause} (h : q.addClause c = .ok q') :
    (∃ f, c = .field f ∧ q' = { q with fields := q.fields ++ [f] }) ∨
    (∃ r, c = .range r ∧ r.quantity = .views ∧ q' = { q with views := q.views ++ [r] }) ∨
    (∃ r f, c = .range r ∧ r.quantity = .date ∧ q.dates.addComparison r.op r.value = .ok f ∧
      q' = { q with dates := f }) ∨
    (∃ low high f, c = .dates low high ∧ q.dates.setBoth low high = .ok f ∧
      q' = { q with dates := f }) ∨
    ((∃ t, c = .term t) ∨ ∃ l r, c = .or l r) ∧ q' = { q with required := q.required ++ [c] } := by
  cases c with
  | term t => exact .inr (.inr (.inr (.inr ⟨.inl ⟨t, rfl⟩, (Except.ok.inj h).symm⟩)))
  | or l r => exact .inr (.inr (.inr (.inr ⟨.inr ⟨l, r, rfl⟩, (Except.ok.inj h).symm⟩)))
  | field f =>
    simp only [addClause] at h
    split at h
    · simp at h
    · exact .inl ⟨f, rfl, (Except.ok.inj h).symm⟩
  | dates low high =>
    obtain ⟨f, hf, hq⟩ := map_eq_ok_iff.mp h
    exact .inr (.inr (.inr (.inl ⟨low, high, f, rfl, hf, hq.symm⟩)))
  | range r =>
    simp only [addClause] at h
    split at h
    · rename_i hr
      obtain ⟨f, hf, hq⟩ := map_eq_ok_iff.mp h
      exact .inr (.inr (.inl ⟨r, f, rfl, hr, hf, hq.symm⟩))
    · rename_i hr
      exact .inr (.inl ⟨r, rfl, hr, (Except.ok.inj h).symm⟩)

/-- Whatever the place of a clause is, the query asks for it from then on and for nothing else that
it did not ask for before. -/
theorem holds_addClause {q q' : Query} {c : Clause} (h : q.addClause c = .ok q')
    (ho : ∀ r, c = .range r → r.op.isKnown = true) (a : Article) :
    q'.Holds a ↔ q.Holds a ∧ c.Holds a := by
  rcases addClause_eq_ok h with ⟨f, rfl, rfl⟩ | ⟨r, rfl, -, rfl⟩ | ⟨r, f, rfl, hr, hf, rfl⟩ |
    ⟨low, high, f, rfl, hf, rfl⟩ | ⟨-, rfl⟩
  · simp only [Holds, Clause.Holds, List.forall_mem_append, List.forall_mem_singleton]
    tauto
  · simp only [Holds, Clause.Holds, List.forall_mem_append, List.forall_mem_singleton]
    tauto
  · have hdates := DateFilter.holds_addComparison (ho r rfl) hf a
    simp only [Holds, Clause.Holds, RangeClause.Holds, hr, hdates]
    tauto
  · have hdates := DateFilter.holds_setBoth hf a.createdAt.date
    simp only [Holds, Clause.Holds, hdates, Article.dayWithin_iff]
    tauto
  · simp only [Holds, List.forall_mem_append, List.forall_mem_singleton]
    tauto

theorem mem_clauses_addClause {q q' : Query} {c d : Clause} (h : q.addClause c = .ok q')
    (hd : d ∈ q'.clauses) : d ∈ q.clauses ∨ d ∈ c.leaves := by
  rcases addClause_eq_ok h with ⟨f, rfl, rfl⟩ | ⟨r, rfl, -, rfl⟩ | ⟨r, f, rfl, -, -, rfl⟩ |
    ⟨low, high, f, rfl, -, rfl⟩ | ⟨-, rfl⟩
  all_goals
    simp only [clauses, List.flatMap_append, List.map_append, List.mem_append,
      List.flatMap_singleton, List.map_singleton, Clause.leaves] at hd ⊢
    tauto

theorem addClause_frame {q q' : Query} {c : Clause} (h : q.addClause c = .ok q') :
    q'.excluded = q.excluded ∧ q'.sort = q.sort := by
  rcases addClause_eq_ok h with ⟨f, -, rfl⟩ | ⟨r, -, -, rfl⟩ | ⟨r, f, -, -, -, rfl⟩ |
    ⟨low, high, f, -, -, rfl⟩ | ⟨-, rfl⟩
  all_goals exact ⟨rfl, rfl⟩

theorem foldlM_addClause_frame {q q' : Query} {cs : List Clause}
    (h : cs.foldlM addClause q = .ok q') : q'.excluded = q.excluded ∧ q'.sort = q.sort := by
  induction cs generalizing q with
  | nil =>
    obtain rfl := Except.ok.inj h
    exact ⟨rfl, rfl⟩
  | cons c cs ih =>
    rw [List.foldlM_cons] at h
    obtain ⟨q₁, h₁, h₂⟩ := bind_eq_ok_iff.mp h
    obtain ⟨hx, hs⟩ := addClause_frame h₁
    exact ⟨(ih h₂).1.trans hx, (ih h₂).2.trans hs⟩

/-- `q'` asks for what `q` asks for and for all of `cs`, and it has no other clauses. -/
structure Collects (q : Query) (cs : List Clause) (q' : Query) : Prop where
  holds : ∀ a, q'.Holds a ↔ q.Holds a ∧ ∀ c ∈ cs, c.Holds a
  clauses : ∀ d ∈ q'.clauses, d ∈ q.clauses ∨ ∃ c ∈ cs, d ∈ c.leaves

theorem collects_of_foldlM {q q' : Query} {cs : List Clause} (h : cs.foldlM addClause q = .ok q')
    (ho : ∀ c ∈ cs, ∀ r, c = .range r → r.op.isKnown = true) : Collects q cs q' := by
  induction cs generalizing q with
  | nil =>
    obtain rfl := Except.ok.inj h
    exact ⟨by simp, by simp⟩
  | cons c cs ih =>
    rw [List.foldlM_cons] at h
    obtain ⟨q₁, h₁, h₂⟩ := bind_eq_ok_iff.mp h
    have hc := holds_addClause h₁ (ho c List.mem_cons_self)
    have hrest := ih h₂ fun d hd => ho d (List.mem_cons_of_mem _ hd)
    refine ⟨fun a => ?_, fun d hd => ?_⟩
    · rw [hrest.holds, hc, List.forall_mem_cons, and_assoc]
    · rcases hrest.clauses d hd with hd | ⟨e, he, hd⟩
      · rcases mem_clauses_addClause h₁ hd with hd | hd
        · exact .inl hd
        · exact .inr ⟨c, List.mem_cons_self, hd⟩
      · exact .inr ⟨e, List.mem_cons_of_mem _ he, hd⟩

end Query

end ArticleArchive
