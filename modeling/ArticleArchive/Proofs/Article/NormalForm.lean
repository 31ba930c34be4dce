import ArticleArchive.Article.Draft
import ArticleArchive.Proofs.Results
import ArticleArchive.Proofs.Text.Words

namespace ArticleArchive

/-- The form that an article has by being made of a draft. -/
structure Article.IsFormed (a : Article) : Prop where
  id : 0 < a.id
  title : a.title ≠ []
  localizations : ∀ t ∈ a.localizations, t.2.title ≠ []

/-- The identifier, the title and the number of views are in normal form, as they are whether an
article is made of a draft or put together from its parts. -/
structure Article.IsNormal (a : Article) : Prop where
  id : ∃ v, Draft.normalId v = .ok a.id
  title : ∃ v, Draft.normalTitle v = .ok a.title
  viewCount : ∃ v, Draft.normalViewCount v = .ok a.viewCount

namespace Draft

theorem normalId_int {i : Int} (h : 1 ≤ i) : normalId (.int i) = .ok i.toNat :=
  if_pos (by omega)

theorem normalViewCount_int {i : Int} (h : 0 ≤ i) : normalViewCount (.int i) = .ok i.toNat :=
  if_pos h

theorem normalTitle_of_hasWord {t : Text} (h : t.HasWord) :
    normalTitle (.str t) = .ok (Text.singleSpaced t) :=
  if_neg (by simpa using Text.singleSpaced_ne_nil_iff.mpr h)

theorem normalTitle_of_not_hasWord {t : Text} (h : ¬ t.HasWord) :
    normalTitle (.str t) = refuse .missingTitle :=
  if_pos (by simpa using mt Text.singleSpaced_ne_nil_iff.mp h)

theorem normalText_str (t : Text) : normalText (.str t) = .ok (Text.strip t) := by
  unfold normalText
  split
  · rename_i hvoid
    obtain rfl : t = [] := by simpa [Json.isVoid] using hvoid
    rfl
  · rfl

theorem pos_of_positiveId {i : Int} {n : Nat} (h : positiveId i = .ok n) : 0 < n := by
  unfold positiveId at h
  split at h
  · obtain rfl := Except.ok.inj h
    omega
  · simp [refuse] at h

theorem pos_of_normalId {v : Json} {n : Nat} (h : normalId v = .ok n) : 0 < n := by
  unfold normalId at h
  split at h
  · simp [refuse] at h
  · simp [refuse] at h
  · exact pos_of_positiveId h
  · split at h
    · simp [refuse] at h
    · dsimp only at h
      split at h
      · obtain ⟨i, -, hi⟩ := bind_eq_ok_iff.mp h
        exact pos_of_positiveId hi
      · simp [refuse] at h
  · simp [refuse] at h

theorem isTidy_of_normalTitle {v : Json} {t : Text} (h : normalTitle v = .ok t) : t.IsTidy := by
  unfold normalTitle at h
  split at h
  · dsimp only at h
    split at h
    · simp [refuse] at h
    · rename_i hne
      obtain rfl := Except.ok.inj h
      exact Text.isTidy_singleSpaced (by simpa using hne)
  · simp [refuse] at h

theorem ne_nil_of_normalTitle {v : Json} {t : Text} (h : normalTitle v = .ok t) : t ≠ [] :=
  (isTidy_of_normalTitle h).ne_nil

theorem normalLocalization_eq_ok {language row : Json} {t : Json × Localization}
    (h : normalLocalization language row = .ok t) :
    t.1 = language ∧ (∃ v, normalTitle v = .ok t.2.title) ∧
      (∃ v, normalText v = .ok t.2.content) ∧ ∃ v, normalText v = .ok t.2.summary := by
  unfold normalLocalization at h
  split at h
  · obtain ⟨title, htitle, h⟩ := bind_eq_ok_iff.mp h
    obtain ⟨content, hcontent, h⟩ := bind_eq_ok_iff.mp h
    obtain ⟨summary, hsummary, h⟩ := bind_eq_ok_iff.mp h
    obtain rfl := Except.ok.inj h
    exact ⟨rfl, ⟨_, htitle⟩, ⟨_, hcontent⟩, ⟨_, hsummary⟩⟩
  · simp [refuse] at h

theorem exists_of_mem_normalRows {rows : List (Json × Json)} {ts : List (Json × Localization)}
    (h : normalRows rows = .ok ts) {t : Json × Localization} (ht : t ∈ ts) :
    ∃ language row, normalLocalization language row = .ok t := by
  obtain ⟨r, -, hr⟩ := exists_of_mem_mapM h ht
  exact ⟨r.1, r.2, hr⟩

theorem exists_of_mem_normalLocalizations {g : GivenLocalizations}
    {ts : List (Json × Localization)} (h : normalLocalizations g = .ok ts)
    {t : Json × Localization} (ht : t ∈ ts) :
    ∃ language row, normalLocalization language row = .ok t := by
  unfold normalLocalizations at h
  split at h
  · exact exists_of_mem_normalRows h ht
  · split at h
    · obtain rfl := Except.ok.inj h
      simp at ht
    · split at h
      · obtain ⟨rows, -, hrows⟩ := bind_eq_ok_iff.mp h
        exact exists_of_mem_normalRows hrows ht
      · exact exists_of_mem_normalRows h ht
      · simp [refuse] at h

theorem ne_nil_of_mem_normalLocalizations {g : GivenLocalizations}
    {ts : List (Json × Localization)} (h : normalLocalizations g = .ok ts)
    {t : Json × Localization} (ht : t ∈ ts) : t.2.title ≠ [] := by
  obtain ⟨language, row, hrow⟩ := exists_of_mem_normalLocalizations h ht
  obtain ⟨-, ⟨v, hv⟩, -, -⟩ := normalLocalization_eq_ok hrow
  exact ne_nil_of_normalTitle hv

end Draft

namespace Article

theorem ofDraft_eq_ok {d : Draft} {a : Article} (h : ofDraft d = .ok a) :
    Draft.normalId d.id = .ok a.id ∧ Draft.normalTitle d.title = .ok a.title ∧
      Draft.normalText d.content = .ok a.content ∧ Draft.normalText d.summary = .ok a.summary ∧
      Draft.normalCategory d.category = .ok a.category ∧
      Draft.normalCreatedAt d.createdAt = .ok a.createdAt ∧
      Draft.normalViewCount d.viewCount = .ok a.viewCount ∧
      Draft.normalLocalizations d.localizations = .ok a.localizations := by
  obtain ⟨id, hid, h⟩ := bind_eq_ok_iff.mp h
  obtain ⟨title, htitle, h⟩ := bind_eq_ok_iff.mp h
  obtain ⟨content, hcontent, h⟩ := bind_eq_ok_iff.mp h
  obtain ⟨summary, hsummary, h⟩ := bind_eq_ok_iff.mp h
  obtain ⟨category, hcategory, h⟩ := bind_eq_ok_iff.mp h
  obtain ⟨createdAt, hcreatedAt, h⟩ := bind_eq_ok_iff.mp h
  obtain ⟨viewCount, hviews, h⟩ := bind_eq_ok_iff.mp h
  obtain ⟨localizations, hlocalizations, h⟩ := bind_eq_ok_iff.mp h
  obtain rfl := Except.ok.inj h
  exact ⟨hid, htitle, hcontent, hsummary, hcategory, hcreatedAt, hviews, hlocalizations⟩

theorem isFormed_of_ofDraft {d : Draft} {a : Article} (h : ofDraft d = .ok a) : a.IsFormed := by
  obtain ⟨hid, htitle, -, -, -, -, -, hlocalizations⟩ := ofDraft_eq_ok h
  exact ⟨Draft.pos_of_normalId hid, Draft.ne_nil_of_normalTitle htitle,
    fun _ => Draft.ne_nil_of_mem_normalLocalizations hlocalizations⟩

theorem isNormal_of_ofDraft {d : Draft} {a : Article} (h : ofDraft d = .ok a) : a.IsNormal := by
  obtain ⟨hid, htitle, -, -, -, -, hviews, -⟩ := ofDraft_eq_ok h
  exact ⟨⟨_, hid⟩, ⟨_, htitle⟩, ⟨_, hviews⟩⟩

theorem IsNormal.id_pos {a : Article} (h : a.IsNormal) : 0 < a.id :=
  Draft.pos_of_normalId h.id.choose_spec

theorem IsNormal.isTidy_title {a : Article} (h : a.IsNormal) : a.title.IsTidy :=
  Draft.isTidy_of_normalTitle h.title.choose_spec

theorem mem_of_localization? {a : Article} {language : Text} {t : Localization}
    (h : a.localization? language = some t) : ∃ l, (l, t) ∈ a.localizations := by
  unfold localization? at h
  split at h
  · simp at h
  · obtain ⟨p, hp, rfl⟩ := Option.map_eq_some_iff.mp h
    exact ⟨p.1, List.mem_of_find?_eq_some hp⟩

theorem IsFormed.localized {a : Article} (h : a.IsFormed) (language : Text) :
    (a.localized language).IsFormed := by
  unfold Article.localized
  split
  · rename_i t ht
    obtain ⟨l, hl⟩ := mem_of_localization? ht
    exact ⟨h.id, h.localizations _ hl, h.localizations⟩
  · exact h

theorem category_localized (a : Article) (language : Text) :
    (a.localized language).category = a.category := by
  unfold Article.localized
  split <;> rfl

end Article

end ArticleArchive
