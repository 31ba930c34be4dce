import ArticleArchive.Proofs.Article.RoundTrip
import ArticleArchive.Proofs.Article.Unconvertible
import ArticleArchive.Proofs.Service.Documents
import ArticleArchive.Proofs.Service.History
import ArticleArchive.Proofs.Service.Mismatches

namespace ArticleArchive

namespace Checked

variable {α β : Type}

theorem apply_eq_ok_iff {f : Checked (α → β)} {x : Checked α} {b : β} :
    Checked.apply f x = .ok b ↔ ∃ g a, f = .ok g ∧ x = .ok a ∧ g a = b := by
  cases f <;> cases x <;> simp [apply]

theorem under_eq_ok_iff {p : PathPart} {x : Checked α} {a : α} : under p x = .ok a ↔ x = .ok a :=
  mapError_eq_ok_iff

end Checked

theorem Reading.le_of_atLeast {low i : Int} {x : Reading Int} (h : atLeast low x = .ok i) :
    low ≤ i := by
  obtain ⟨j, -, hj⟩ := bind_eq_ok_iff.mp h
  split at hj
  · rename_i hle
    obtain rfl := Except.ok.inj hj
    simpa using hle
  · simp at hj

namespace Shape

variable {α : Type} {read : Json → Reading α} {v : Json}

theorem leaf_eq_ok_iff {a : α} : leaf read v = .ok a ↔ read v = .ok a :=
  mapError_eq_ok_iff

variable {name : Text} {check : Json → Checked α} {fields : List (Text × Json)} {a : α}

theorem exists_of_required (h : required name check fields = .ok a) : ∃ v, check v = .ok a := by
  unfold required at h
  rw [Checked.under_eq_ok_iff] at h
  split at h
  · exact ⟨_, h⟩
  · simp [Checked.fail] at h

theorem exists_of_optional {absent : α} (h : optional name absent check fields = .ok a) :
    a = absent ∨ ∃ v, check v = .ok a := by
  unfold optional at h
  split at h
  · exact .inr ⟨_, Checked.under_eq_ok_iff.mp h⟩
  · exact .inl (Except.ok.inj h).symm

end Shape

namespace Submission

structure IsFit (s : Submission) : Prop where
  id : 1 ≤ s.document.id
  viewCount : 0 ≤ s.document.viewCount

theorem isFit_of_ofFields {fields : List (Text × Json)} {s : Submission}
    (h : ofFields fields = .ok s) : s.IsFit := by
  simp only [ofFields, ofParts, Checked.apply_eq_ok_iff, Except.ok.injEq] at h
  -- the fields from the identifier to the localizations, of which only the numbers are kept
  obtain ⟨_, _, ⟨_, _, ⟨_, _, ⟨_, _, ⟨_, _, ⟨_, _, ⟨_, _, ⟨_, id, rfl, hid, rfl⟩, -, rfl⟩, -, rfl⟩,
    -, rfl⟩, -, rfl⟩, -, rfl⟩, hviews, rfl⟩, -, rfl⟩ := h
  constructor
  · obtain ⟨v, hv⟩ := Shape.exists_of_required hid
    exact Reading.le_of_atLeast (Shape.leaf_eq_ok_iff.mp hv)
  · rcases Shape.exists_of_optional hviews with habsent | ⟨v, hv⟩
    · exact Int.le_of_eq habsent.symm
    · exact Reading.le_of_atLeast (Shape.leaf_eq_ok_iff.mp hv)

theorem isFit_of_ofBody {body : Option Json} {s : Submission} (h : ofBody body = .ok s) :
    s.IsFit := by
  unfold ofBody Shape.object at h
  split at h
  · simp [Checked.fail] at h
  · simp [Checked.fail] at h
  · split at h
    · exact isFit_of_ofFields h
    · simp [Checked.fail] at h

end Submission

namespace Draft

theorem normalCategory_toJson (c : CategoryEntry) :
    normalCategory c.toJson =
      if c.name.isEmpty then .ok none
      else (namedCategory (c.id.elim .null .int) (.str c.name)).map some := by
  have hfields : c.toJson = .obj [(idKey, c.id.elim .null .int), (nameKey, .str c.name)] := rfl
  rw [hfields]
  rfl

theorem exists_normalCategory (c : Option CategoryEntry) :
    ∃ k, normalCategory (c.elim .null CategoryEntry.toJson) = .ok k := by
  cases c with
  | none => exact ⟨none, rfl⟩
  | some c =>
    have hid : categoryId (c.id.elim .null .int) = .ok (c.id.elim .null .int) := by
      cases c.id <;> rfl
    rw [Option.elim_some, normalCategory_toJson]
    split
    · exact ⟨none, rfl⟩
    · rw [namedCategory, hid]
      exact ⟨_, rfl⟩

theorem normalLocalization_cases (language : Json) (t : Localization) :
    t.title.HasWord ∧ (∃ r, normalLocalization language t.toJson = .ok r) ∨
      ¬ t.title.HasWord ∧ normalLocalization language t.toJson = refuse .missingTitle := by
  rw [normalLocalization_toJson, normalText_str, normalText_str]
  by_cases h : t.title.HasWord
  · rw [normalTitle_of_hasWord h]
    exact .inl ⟨h, _, rfl⟩
  · rw [normalTitle_of_not_hasWord h]
    exact .inr ⟨h, rfl⟩

theorem normalLocalizations_cases (ts : List (Text × Localization)) :
    let given := .value (.obj (ts.map fun t => (t.1, t.2.toJson)))
    (∀ t ∈ ts, t.2.title.HasWord) ∧ (∃ rows, normalLocalizations given = .ok rows) ∨
      (∃ t ∈ ts, ¬ t.2.title.HasWord) ∧ normalLocalizations given = refuse .missingTitle := by
  intro given
  have hrows : normalLocalizations given =
      ts.mapM fun t => normalLocalization (.str t.1) t.2.toJson := by
    cases ts with
    | nil => rfl
    | cons t ts =>
      change normalRows _ = _
      rw [normalRows, List.map_map, List.mapM_map]
      rfl
  rw [hrows]
  exact mapM_cases (fun t => normalLocalization_cases (.str t.1) t.2) ts

end Draft

namespace Submission

/-- The time of the submission has no universal time within the calendar. -/
def LeavesCalendar (s : Submission) : Prop :=
  ∃ o, s.offset = some o ∧ s.document.createdAt.LeavesCalendar o

/-- The title is all blanks, or the title of a localization is; the time is looked at between the
two. -/
def LacksTitle (s : Submission) : Prop :=
  ¬ s.document.title.HasWord ∨
    ¬ s.LeavesCalendar ∧ ∃ t ∈ s.document.localizations, ¬ t.2.title.HasWord

/-- Nothing refuses the submission before its time, and the time cannot be kept. -/
def IsUnreachable (s : Submission) : Prop :=
  s.document.title.HasWord ∧ s.LeavesCalendar

/-- Every title has a word in it, and the time stays within the calendar. -/
structure IsSound (s : Submission) : Prop where
  title : s.document.title.HasWord
  time : ¬ s.LeavesCalendar
  localizations : ∀ t ∈ s.document.localizations, t.2.title.HasWord

theorem universalTime_cases (s : Submission) :
    ¬ s.LeavesCalendar ∧ (∃ t, Draft.normalCreatedAt s.draft.createdAt = .ok t) ∨
      s.LeavesCalendar ∧
        Draft.normalCreatedAt s.draft.createdAt = .error (.unconvertible .instant) := by
  have htime : Draft.normalCreatedAt s.draft.createdAt =
      Draft.universalTime s.document.createdAt s.offset := rfl
  rw [htime]
  by_cases h : s.LeavesCalendar
  · exact .inr ⟨h, Draft.universalTime_eq_unconvertible_iff.mpr ⟨rfl, h⟩⟩
  · refine .inl ⟨h, ?_⟩
    unfold Draft.universalTime
    split
    · exact ⟨_, rfl⟩
    · rename_i o ho
      split
      · exact ⟨_, rfl⟩
      · rename_i hnone
        exact absurd ⟨o, ho, DateTime.toUtc?_eq_none_iff.mp hnone⟩ h

/-- What becomes of a submission that has the shape of a document. -/
theorem IsFit.ofDraft_cases {s : Submission} (h : s.IsFit) :
    s.LacksTitle ∧ Article.ofDraft s.draft = .error (.invalid .missingTitle) ∨
    s.IsUnreachable ∧ Article.ofDraft s.draft = .error (.unconvertible .instant) ∨
    s.IsSound ∧ ∃ x, Article.ofDraft s.draft = .ok x ∧ (x.id : Int) = s.document.id := by
  have hid : Draft.normalId s.draft.id = .ok s.document.id.toNat := Draft.normalId_int h.id
  have hcontent : Draft.normalText s.draft.content = .ok (Text.strip s.document.content) :=
    Draft.normalText_str _
  have hsummary : Draft.normalText s.draft.summary = .ok (Text.strip s.document.summary) :=
    Draft.normalText_str _
  obtain ⟨k, hk⟩ : ∃ k, Draft.normalCategory s.draft.category = .ok k :=
    Draft.exists_normalCategory _
  have hviews : Draft.normalViewCount s.draft.viewCount = .ok s.document.viewCount.toNat :=
    Draft.normalViewCount_int h.viewCount
  have hnat : (s.document.id.toNat : Int) = s.document.id :=
    Int.toNat_of_nonneg (Int.le_trans (by decide) h.id)
  rw [Article.ofDraft, hid, hcontent, hsummary, hk, hviews]
  -- the title is looked at first, then the time, then the localizations; nothing else refuses
  by_cases htitle : s.document.title.HasWord
  · rw [show Draft.normalTitle s.draft.title = _ from Draft.normalTitle_of_hasWord htitle]
    rcases s.universalTime_cases with ⟨htime, t, ht⟩ | ⟨htime, ht⟩
    · rw [ht]
      rcases Draft.normalLocalizations_cases s.document.localizations with
        ⟨hall, rows, hrows⟩ | ⟨hsome, hrows⟩
      · rw [show Draft.normalLocalizations s.draft.localizations = _ from hrows]
        exact .inr (.inr ⟨⟨htitle, htime, hall⟩, _, rfl, hnat⟩)
      · rw [show Draft.normalLocalizations s.draft.localizations = _ from hrows]
        exact .inl ⟨.inr ⟨htime, hsome⟩, rfl⟩
    · rw [ht]
      exact .inr (.inl ⟨⟨htitle, htime⟩, rfl⟩)
  · rw [show Draft.normalTitle s.draft.title = _ from Draft.normalTitle_of_not_hasWord htitle]
    exact .inl ⟨.inl htitle, rfl⟩

theorem LacksTitle.not_isUnreachable {s : Submission} (h : s.LacksTitle) : ¬ s.IsUnreachable := by
  rintro ⟨htitle, htime⟩
  rcases h with h | ⟨h, -⟩
  · exact h htitle
  · exact h htime

theorem IsSound.not_isUnreachable {s : Submission} (h : s.IsSound) : ¬ s.IsUnreachable :=
  fun hs => h.time hs.2

end Submission

namespace Http

mutual

theorem isFinite_echo {v : Json} (h : v.isFinite = true) : (echo v).isFinite = true := by
  cases v with
  | arr items => exact areFinite_echoItems h
  | obj fields => exact haveFinite_echoFields h
  | _ => exact h

theorem areFinite_echoItems {vs : List Json} (h : Json.areFinite vs = true) :
    Json.areFinite (echoItems vs) = true := by
  cases vs with
  | nil => rfl
  | cons v vs =>
    obtain ⟨hv, hvs⟩ := Bool.and_eq_true_iff.mp h
    exact Bool.and_eq_true_iff.mpr ⟨isFinite_echo hv, areFinite_echoItems hvs⟩

theorem haveFinite_echoFields {fields : List (Text × Json)}
    (h : Json.haveFinite fields = true) : Json.haveFinite (echoFields fields) = true := by
  cases fields with
  | nil => rfl
  | cons f fields =>
    obtain ⟨name, v⟩ := f
    obtain ⟨hv, hfields⟩ := Bool.and_eq_true_iff.mp h
    unfold echoFields
    split
    · exact haveFinite_echoFields hfields
    · exact Bool.and_eq_true_iff.mpr ⟨isFinite_echo hv, haveFinite_echoFields hfields⟩

end

/-- The value can be sent back. -/
def IsSendable (v : Json) : Prop :=
  (echo v).isFinite = true

theorem unfit_cases (es : List ShapeError) :
    (∀ e ∈ es, IsSendable e.input) ∧ Response.unfit es = .unprocessable es ∨
      (∃ e ∈ es, ¬ IsSendable e.input) ∧ Response.unfit es = .serverError := by
  unfold Response.unfit
  split
  · rename_i h
    exact .inl ⟨List.all_eq_true.mp h, rfl⟩
  · rename_i h
    refine .inr ⟨?_, rfl⟩
    by_contra hnone
    push Not at hnone
    exact h (List.all_eq_true.mpr hnone)

/-- What a submission is answered with, and the archive after it. -/
inductive Answered (a : Archive) (r : Request) : Response → Archive → Prop
  | unfit {es : List ShapeError} (hes : r.submission = .error es)
      (h : ∀ e ∈ es, IsSendable e.input) : Answered a r (.unprocessable es) a
  | unsendable {es : List ShapeError} {e : ShapeError} (hes : r.submission = .error es)
      (he : e ∈ es) (h : ¬ IsSendable e.input) : Answered a r .serverError a
  | untitled {s : Submission} (hs : r.submission = .ok s) (h : s.LacksTitle) :
      Answered a r (.refused (.document s.document.id InvalidArticle.missingTitle.message)) a
  | unreachable {s : Submission} (hs : r.submission = .ok s) (h : s.IsUnreachable) :
      Answered a r .serverError a
  | taken {s : Submission} {y : Article} (hs : r.submission = .ok s) (h : s.IsSound)
      (hy : y ∈ a.articles) (hid : (y.id : Int) = s.document.id) :
      Answered a r (.refused (.document y.id (Archive.duplicateMessage y.id))) a
  | added {s : Submission} {x : Article} {b : Archive} (hs : r.submission = .ok s) (h : s.IsSound)
      (hx : Article.ofDraft s.draft = .ok x) (hb : a.Appends x b) :
      Answered a r (.ofJson (added x.id)) b

theorem answered_submit (a : Archive) (r : Request) :
    Answered a r (submit a r).1 (submit a r).2 := by
  unfold submit
  split
  · rename_i es hes
    rcases unfit_cases es with ⟨h, hanswer⟩ | ⟨⟨e, he, h⟩, hanswer⟩
    · rw [hanswer]
      exact .unfit hes h
    · rw [hanswer]
      exact .unsendable hes he h
  · rename_i s hs
    have hfit : s.IsFit := Submission.isFit_of_ofBody (Checked.under_eq_ok_iff.mp hs)
    unfold addDocument
    rcases hfit.ofDraft_cases with ⟨h, hx⟩ | ⟨h, hx⟩ | ⟨h, x, hx, hid⟩
    · rw [hx]
      exact .untitled hs h
    · rw [hx]
      exact .unreachable hs h
    · rw [hx]
      dsimp only
      split
      · rename_i e he
        obtain ⟨y, hy, hyx, rfl⟩ := Archive.add_eq_error_iff.mp he
        rw [← hyx]
        exact .taken hs h hy (by rw [hyx, hid])
      · rename_i b hb
        exact .added hs h hx (Archive.add_eq_ok_iff.mp hb)

/-- The status is one of the three exactly if the service fails in neither way. -/
theorem Answered.status_iff {a b : Archive} {r : Request} {response : Response}
    (h : Answered a r response b) :
    response.status = 422 ∨ response.status = 400 ∨ response.status = 200 ↔
      r.submission.Shows IsSendable ∧ ∀ s, r.submission = .ok s → ¬ s.IsUnreachable := by
  -- a submission that has the shape shows nothing, and its time alone can make the service fail
  have hfit {s : Submission} (hs : r.submission = .ok s) (h : ¬ s.IsUnreachable) :
      r.submission.Shows IsSendable ∧ ∀ s, r.submission = .ok s → ¬ s.IsUnreachable := by
    refine ⟨hs ▸ Checked.shows_ok s, fun s' hs' => ?_⟩
    obtain rfl : s = s' := Except.ok.inj (hs.symm.trans hs')
    exact h
  cases h with
  | @unfit es hes h =>
    refine iff_of_true (.inl rfl) ⟨fun fs hfs => ?_, fun s hs => by simp [hes] at hs⟩
    obtain rfl : es = fs := Except.error.inj (hes.symm.trans hfs)
    exact h
  | unsendable hes he h => exact iff_of_false (by decide) fun hall => h (hall.1 _ hes _ he)
  | untitled hs h => exact iff_of_true (.inr (.inl rfl)) (hfit hs h.not_isUnreachable)
  | unreachable hs h => exact iff_of_false (by decide) fun hall => hall.2 _ hs h
  | taken hs h hy hid => exact iff_of_true (.inr (.inl rfl)) (hfit hs h.not_isUnreachable)
  | added hs h hx hb => exact iff_of_true (.inr (.inr rfl)) (hfit hs h.not_isUnreachable)

theorem shows_isSendable {r : Request} (h : ∀ v, r.body = some v → v.isFinite = true) :
    r.submission.Shows IsSendable :=
  ((Submission.shows_ofBody h).mono fun _ => isFinite_echo).under _

/-- Every submission is answered for its shape, refused for a title or for its identifier, or added,
and only what is added changes the archive. There are two exceptions, on which the service fails: a
titled submission whose time leaves the calendar on the way to universal time, and one that does not
fit and shows this by a value that cannot be sent back, which takes a number that is not finite. As
for every `Text`, those of the body hold no half of a surrogate pair. -/
theorem submission_answered (a : Archive) (now : DateTime) {r : Request} (hr : r.IsSubmission) :
    Answered a r (respond a now r).1 (respond a now r).2 ∧
      ((respond a now r).1.status = 422 ∨ (respond a now r).1.status = 400 ∨
          (respond a now r).1.status = 200 ↔
        r.submission.Shows IsSendable ∧ ∀ s, r.submission = .ok s → ¬ s.IsUnreachable) ∧
      ((∀ v, r.body = some v → v.isFinite = true) → r.submission.Shows IsSendable) := by
  rw [respond_of_ofPath hr.1 hr.2]
  exact ⟨answered_submit a r, (answered_submit a r).status_iff, shows_isSendable⟩

/-- The first midnight of the calendar, one hour east of universal time. -/
theorem submission_not_answered_before_first_day :
    let r : Request :=
      { method := "POST".toList, path := "/documents/".toList
        body := some (.ofFields [("id", .int 1), ("title", .str "t".toList),
          ("created_at", .str "0001-01-01T00:00:00+01:00".toList)]) }
    r.IsSubmission ∧ (∃ s, r.submission = .ok s ∧ s.IsUnreachable) ∧
      ¬ ((respond {} (.midnight .last) r).1.status = 422 ∨
        (respond {} (.midnight .last) r).1.status = 400 ∨
        (respond {} (.midnight .last) r).1.status = 200) := by
  intro r
  have hr : r.IsSubmission := ⟨by decide, by decide⟩
  let s : Submission :=
    { document := { id := 1, title := "t".toList, createdAt := .midnight .first }
      offset := some ⟨3600000000, by decide, by decide⟩ }
  have hs : r.submission = .ok s := rfl
  have hunreachable : s.IsUnreachable :=
    ⟨⟨'t', by decide, by decide⟩, _, rfl, .inl ⟨rfl, by decide⟩⟩
  refine ⟨hr, ⟨s, hs, hunreachable⟩, fun h => ?_⟩
  exact ((submission_answered {} (.midnight .last) hr).2.1.mp h).2 s hs hunreachable

end Http

end ArticleArchive
