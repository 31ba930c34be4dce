import ArticleArchive.Proofs.Article.NormalForm
import ArticleArchive.Proofs.Calendar.Timestamps
import ArticleArchive.Proofs.Search.Direction
import ArticleArchive.Service.Archive

namespace ArticleArchive

namespace Reading

theorem atLeast_ok {low i : Int} (h : low ≤ i) : Reading.atLeast low (.ok i) = .ok i := by
  simp [atLeast, require, Except.bind, h]

theorem longerThanNone_ok {t : Text} (h : t ≠ []) : Reading.longerThanNone (.ok t) = .ok t := by
  simp [longerThanNone, require, Except.bind, h]

end Reading

/-- The identifier is null or stands for an integer. -/
def Category.IsServable (c : Category) : Prop :=
  c.id = .null ∨ ∃ i, Shape.integer c.id = .ok i

def Article.IsServable (a : Article) : Prop :=
  ∀ c, a.category = some c → c.IsServable

/-- A category is given out with its name and with the integer that its identifier stands for. -/
def CategoryEntry.Carries (e : CategoryEntry) (c : Category) : Prop :=
  e.name = c.name ∧ (c.id = .null ∧ e.id = none ∨ ∃ i, Shape.integer c.id = .ok i ∧ e.id = some i)

/-- A document gives out what its article holds, but for the localizations. -/
structure Document.Carries (d : Document) (a : Article) : Prop where
  id : d.id = a.id
  title : d.title = a.title
  content : d.content = a.content
  summary : d.summary = a.summary
  category : Option.Rel CategoryEntry.Carries d.category a.category
  createdAt : d.createdAt = a.createdAt
  viewCount : d.viewCount = a.viewCount
  localizations : d.localizations = []

def categoryIdPath : List PathPart :=
  [.name Draft.categoryKey, .name Draft.idKey]

namespace Category

theorem submission_toJson (c : Category) :
    Submission.category c.toJson =
      (Checked.under (.name Draft.idKey) (Shape.nullable (Shape.leaf Shape.integer) c.id)).map
        fun id => ⟨id, c.name⟩ := by
  have hid : Shape.optional Draft.idKey none (Shape.nullable (Shape.leaf Shape.integer))
      [(Draft.idKey, c.id), (Draft.nameKey, .str c.name)] =
        Checked.under (.name Draft.idKey) (Shape.nullable (Shape.leaf Shape.integer) c.id) := rfl
  have hname : Shape.required Draft.nameKey (Shape.leaf Shape.text)
      [(Draft.idKey, c.id), (Draft.nameKey, .str c.name)] = .ok c.name := rfl
  rw [toJson, Submission.category, Shape.object, hid, hname]
  cases Checked.under (.name Draft.idKey) (Shape.nullable (Shape.leaf Shape.integer) c.id) <;> rfl

theorem submission_toJson_cases (c : Category) :
    (c.IsServable ∧ ∃ e, Submission.category c.toJson = .ok e ∧ e.Carries c) ∨
      ¬ c.IsServable ∧ ∃ m, Submission.category c.toJson =
        .error [⟨[.name Draft.idKey], m, c.id⟩] := by
  rw [submission_toJson]
  by_cases hnull : c.id = .null
  · exact .inl ⟨.inl hnull, ⟨none, c.name⟩, by rw [hnull]; rfl, rfl, .inl ⟨hnull, rfl⟩⟩
  · have hnullable : Shape.nullable (Shape.leaf Shape.integer) c.id =
        (Shape.leaf Shape.integer c.id).map some := by
      unfold Shape.nullable
      split
      · exact absurd ‹_› hnull
      · rfl
    rw [hnullable, Shape.leaf]
    cases hi : Shape.integer c.id with
    | ok i => exact .inl ⟨.inr ⟨i, hi⟩, ⟨some i, c.name⟩, rfl, rfl, .inr ⟨i, hi, rfl⟩⟩
    | error m =>
      refine .inr ⟨?_, m, rfl⟩
      rintro (h | ⟨i, h⟩)
      · exact hnull h
      · rw [hi] at h
        simp at h

end Category

namespace Article

def categoryEntry (a : Article) : Checked (Option CategoryEntry) :=
  Shape.optional Draft.categoryKey none (Shape.nullable Submission.category) a.fields

theorem categoryEntry_cases (a : Article) :
    (a.IsServable ∧ ∃ e, a.categoryEntry = .ok e ∧ Option.Rel CategoryEntry.Carries e a.category) ∨
      ¬ a.IsServable ∧ ∃ m v, a.categoryEntry = .error [⟨categoryIdPath, m, v⟩] := by
  cases hc : a.category with
  | none =>
    have hentry : a.categoryEntry = Checked.under (.name Draft.categoryKey) (.ok none) := by
      change Checked.under _ (Shape.nullable _ (a.category.elim .null Category.toJson)) = _
      rw [hc]
      rfl
    refine .inl ⟨fun c h => ?_, none, hentry, .none⟩
    rw [hc] at h
    simp at h
  | some c =>
    have hentry : a.categoryEntry = Checked.under (.name Draft.categoryKey)
        ((Submission.category c.toJson).map some) := by
      change Checked.under _ (Shape.nullable _ (a.category.elim .null Category.toJson)) = _
      rw [hc]
      rfl
    rw [hentry]
    rcases c.submission_toJson_cases with ⟨hs, e, he, hcarries⟩ | ⟨hs, m, hm⟩
    · refine .inl ⟨fun c' h => ?_, some e, by rw [he]; rfl, .some hcarries⟩
      obtain rfl : c = c' := Option.some.inj (hc.symm.trans h)
      exact hs
    · exact .inr ⟨fun h => hs (h c hc), m, c.id, by rw [hm]; rfl⟩

/-- Of an article that is made of a draft only the category is open to doubt. -/
theorem IsFormed.ofArticle_eq {a : Article} (h : a.IsFormed) :
    Document.ofArticle a false = a.categoryEntry.map fun category =>
      { id := a.id, title := a.title, content := a.content, summary := a.summary, category,
        createdAt := a.createdAt, viewCount := a.viewCount } := by
  have hid : Shape.required Draft.idKey (Shape.leaf fun v => (Shape.integer v).atLeast 1) a.fields =
      .ok (a.id : Int) := by
    have hpos : (1 : Int) ≤ a.id := by
      have := h.id
      omega
    change Checked.under _ (Reading.checked _ (Reading.atLeast 1 (.ok (a.id : Int)))) = _
    rw [Reading.atLeast_ok hpos]
    rfl
  have htitle : Shape.required Draft.titleKey (Shape.leaf fun v => (Shape.text v).longerThanNone)
      a.fields = .ok a.title := by
    change Checked.under _ (Reading.checked _ (Reading.longerThanNone (.ok a.title))) = _
    rw [Reading.longerThanNone_ok h.title]
    rfl
  have hcontent : Shape.optional Draft.contentKey [] (Shape.leaf Shape.text) a.fields =
      .ok a.content := rfl
  have hsummary : Shape.optional Draft.summaryKey [] (Shape.leaf Shape.text) a.fields =
      .ok a.summary := rfl
  have htime : Shape.required Draft.createdAtKey (Shape.leaf Submission.time) a.fields =
      .ok (a.createdAt, none) := by
    have hread : Submission.time (.str a.createdAt.text) = .ok (a.createdAt, none) := by
      simp [Submission.time, Submission.timeText?, DateTime.ofTimestamp?_text]
    change Checked.under _ (Reading.checked _ (Submission.time (.str a.createdAt.text))) = _
    rw [hread]
    rfl
  have hviews : Shape.optional Draft.viewCountKey 0
      (Shape.leaf fun v => (Shape.integer v).atLeast 0) a.fields = .ok (a.viewCount : Int) := by
    have hnonneg : (0 : Int) ≤ a.viewCount := by omega
    change Checked.under _ (Reading.checked _ (Reading.atLeast 0 (.ok (a.viewCount : Int)))) = _
    rw [Reading.atLeast_ok hnonneg]
    rfl
  -- all that is left of the check is the category
  simp only [Document.ofArticle, Submission.ofParts, hid, htitle, hcontent, hsummary, htime,
    hviews]
  change Except.map _ (Checked.apply (Checked.apply (Checked.apply (Checked.apply _
    a.categoryEntry) _) _) _) = _
  cases a.categoryEntry <;> rfl

theorem IsFormed.ofArticle_cases {a : Article} (h : a.IsFormed) :
    (a.IsServable ∧ ∃ d, Document.ofArticle a false = .ok d ∧ d.Carries a) ∨
      ¬ a.IsServable ∧ ∃ m v, Document.ofArticle a false = .error [⟨categoryIdPath, m, v⟩] := by
  rw [h.ofArticle_eq]
  rcases a.categoryEntry_cases with ⟨hs, e, he, hcarries⟩ | ⟨hs, m, v, hm⟩
  · exact .inl ⟨hs, _, by rw [he]; rfl, rfl, rfl, rfl, rfl, hcarries, rfl, rfl, rfl⟩
  · exact .inr ⟨hs, m, v, by rw [hm]; rfl⟩

theorem isServable_localized_iff (a : Article) (language : Text) :
    (a.localized language).IsServable ↔ a.IsServable := by
  rw [IsServable, IsServable, category_localized]

end Article

end ArticleArchive
