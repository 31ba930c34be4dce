import ArticleArchive.Article.Localized
import ArticleArchive.Proofs.Article.RoundTrip

namespace ArticleArchive

theorem Json.sameKey_str_iff {v : Json} {t : Text} : v.sameKey (.str t) = true ↔ v = .str t := by
  cases v <;> simp [sameKey, asInteger?]

/-- Texts that are their own normal form. -/
structure Localization.IsSettled (t : Localization) : Prop where
  title : Draft.normalTitle (.str t.title) = .ok t.title
  content : Draft.normalText (.str t.content) = .ok t.content
  summary : Draft.normalText (.str t.summary) = .ok t.summary

namespace Article

variable {a : Article} {d : Draft} {language : Text} {t : Localization}

/-- The article has the texts in a language: no other row before theirs is under that name. -/
def HasTexts (a : Article) (language : Text) (t : Localization) : Prop :=
  ∃ before after, a.localizations = before ++ (.str language, t) :: after ∧
    ∀ r ∈ before, r.1 ≠ .str language

/-- What building an article anew in one of its languages asks of it. -/
structure IsSettled (a : Article) : Prop where
  id : 0 < a.id
  localizations : ∀ r ∈ a.localizations, r.2.IsSettled

theorem isSettled_of_ofDraft (h : ofDraft d = .ok a) : a.IsSettled := by
  obtain ⟨hid, -, -, -, -, -, -, hlocalizations⟩ := ofDraft_eq_ok h
  refine ⟨Draft.pos_of_normalId hid, fun r hr => ?_⟩
  obtain ⟨l, row, hrow⟩ := Draft.exists_of_mem_normalLocalizations hlocalizations hr
  obtain ⟨-, ⟨title, htitle⟩, ⟨content, hcontent⟩, summary, hsummary⟩ :=
    Draft.normalLocalization_eq_ok hrow
  exact ⟨Draft.normalTitle_of_ok htitle, Draft.normalText_of_ok hcontent,
    Draft.normalText_of_ok hsummary⟩

theorem localization?_eq_some_iff :
    a.localization? language = some t ↔ language ≠ [] ∧ a.HasTexts language t := by
  unfold localization? HasTexts
  split
  · rename_i hempty
    simp [List.isEmpty_iff.mp hempty]
  · rename_i hne
    rw [and_iff_right (by simpa using hne), Option.map_eq_some_iff]
    constructor
    · rintro ⟨⟨l, t⟩, hfind, rfl⟩
      obtain ⟨hkey, before, after, hsplit, hbefore⟩ := List.find?_eq_some_iff_append.mp hfind
      obtain rfl := Json.sameKey_str_iff.mp hkey
      refine ⟨before, after, hsplit, fun r hr heq => ?_⟩
      simpa [Json.sameKey_str_iff.mpr heq] using hbefore r hr
    · rintro ⟨before, after, hsplit, hbefore⟩
      refine ⟨(.str language, t), List.find?_eq_some_iff_append.mpr
        ⟨Json.sameKey_str_iff.mpr rfl, before, after, hsplit, fun r hr => ?_⟩, rfl⟩
      rw [Bool.not_eq_true', Bool.eq_false_iff]
      exact mt Json.sameKey_str_iff.mp (hbefore r hr)

theorem localization?_eq_none_iff :
    a.localization? language = none ↔ language = [] ∨ ¬ ∃ t, a.HasTexts language t := by
  simp only [Option.eq_none_iff_forall_ne_some, ne_eq, localization?_eq_some_iff]
  rw [← not_exists, exists_and_left, not_and_or, not_not]

theorem localized_of_some (h : a.localization? language = some t) :
    a.localized language =
      { a with title := t.title, content := t.content, summary := t.summary } := by
  rw [Article.localized, h]

theorem localized_of_none (h : a.localization? language = none) : a.localized language = a := by
  rw [Article.localized, h]

theorem withTexts_eq_ok (hid : 0 < a.id) (ht : t.IsSettled) :
    a.withTexts t =
      .ok { a with title := t.title, content := t.content, summary := t.summary } := by
  rw [withTexts, Draft.normalId_int (Int.ofNat_le.mpr hid), ht.title, ht.content, ht.summary,
    Draft.normalViewCount_int (Int.natCast_nonneg a.viewCount)]
  rfl

theorem IsSettled.inLanguage_eq (h : a.IsSettled) (language : Text) :
    a.inLanguage language = .ok (a.localized language) := by
  cases hfound : a.localization? language with
  | none => rw [inLanguage, hfound, localized_of_none hfound]
  | some t =>
    obtain ⟨l, hl⟩ := mem_of_localization? hfound
    rw [inLanguage, hfound, localized_of_some hfound]
    exact withTexts_eq_ok h.id (h.localizations _ hl)

theorem localized_eq_with (a : Article) (language : Text) :
    ∃ t : Localization, a.localized language =
      { a with title := t.title, content := t.content, summary := t.summary } := by
  unfold localized
  split
  · exact ⟨_, rfl⟩
  · exact ⟨⟨a.title, a.content, a.summary⟩, rfl⟩

theorem IsSettled.localized (h : a.IsSettled) (language : Text) :
    (a.localized language).IsSettled := by
  obtain ⟨t, ht⟩ := a.localized_eq_with language
  rw [ht]
  exact ⟨h.id, h.localizations⟩

@[simp]
theorem localization?_localized (a : Article) (language l : Text) :
    (a.localized language).localization? l = a.localization? l := by
  obtain ⟨t, ht⟩ := a.localized_eq_with language
  rw [ht]
  rfl

theorem localized_localized_of_some (h : a.localization? language = some t) (l : Text) :
    (a.localized l).localized language = a.localized language := by
  obtain ⟨s, hs⟩ := a.localized_eq_with l
  rw [localized_of_some ((localization?_localized a l language).trans h), localized_of_some h, hs]

theorem localized_localized_of_none (h : a.localization? language = none) (l : Text) :
    (a.localized l).localized language = a.localized l :=
  localized_of_none ((localization?_localized a l language).trans h)

/-- An article in a language differs from the article in its texts only, which are those that it has
in the language, if the language has a name and the article has any. Of two languages the second
decides in that case, and otherwise it leaves the article as the first has made it. -/
theorem inLanguage_of_ofDraft (h : ofDraft d = .ok a) (l₁ l₂ : Text) :
    ∃ b, a.inLanguage l₁ = .ok b ∧
      b = { a with title := b.title, content := b.content, summary := b.summary } ∧
      (∀ t, l₁ ≠ [] → a.HasTexts l₁ t →
        b.title = t.title ∧ b.content = t.content ∧ b.summary = t.summary) ∧
      (l₁ = [] ∨ (¬ ∃ t, a.HasTexts l₁ t) → b = a) ∧
      (∀ t, l₂ ≠ [] → a.HasTexts l₂ t → b.inLanguage l₂ = a.inLanguage l₂) ∧
      (l₂ = [] ∨ (¬ ∃ t, a.HasTexts l₂ t) → b.inLanguage l₂ = .ok b) := by
  have hsettled := isSettled_of_ofDraft h
  refine ⟨a.localized l₁, hsettled.inLanguage_eq l₁, ?_, fun t hne ht => ?_, fun hnone => ?_,
    fun t hne ht => ?_, fun hnone => ?_⟩
  · obtain ⟨s, hs⟩ := a.localized_eq_with l₁
    rw [hs]
  · rw [localized_of_some (localization?_eq_some_iff.mpr ⟨hne, ht⟩)]
    exact ⟨rfl, rfl, rfl⟩
  · exact localized_of_none (localization?_eq_none_iff.mpr hnone)
  · rw [(hsettled.localized l₁).inLanguage_eq, hsettled.inLanguage_eq,
      localized_localized_of_some (localization?_eq_some_iff.mpr ⟨hne, ht⟩)]
  · rw [(hsettled.localized l₁).inLanguage_eq,
      localized_localized_of_none (localization?_eq_none_iff.mpr hnone)]

def fieldsWithLanguages (names : List Text) : List (Text × Json) :=
  [(Draft.idKey, .int 1), (Draft.titleKey, .str ['t']),
    (Draft.createdAtKey, .str "2024-01-01".toList),
    (Draft.localizationsKey, .obj (names.map fun n => (n, .obj [(Draft.titleKey, .str ('x' :: n))])))]

theorem inLanguage_of_ofDraft_twice :
    ∃ a b c, ofFields (fieldsWithLanguages [['d', 'e'], ['f', 'r']]) = .ok a ∧
      a.inLanguage ['d', 'e'] = .ok b ∧ b.title = ['x', 'd', 'e'] ∧
      b.inLanguage ['f', 'r'] = .ok c ∧ c.title = ['x', 'f', 'r'] := by
  obtain ⟨a, ha⟩ : ∃ a, ofFields (fieldsWithLanguages [['d', 'e'], ['f', 'r']]) = .ok a := ⟨_, rfl⟩
  obtain ⟨b, hb, -, hbtexts, -, hbc, -⟩ := inLanguage_of_ofDraft ha ['d', 'e'] ['f', 'r']
  obtain ⟨c, hc, -, hctexts, -⟩ := inLanguage_of_ofDraft ha ['f', 'r'] []
  obtain rfl := Except.ok.inj ha
  have hde := hbtexts _ (by simp) ⟨[], _, rfl, by simp⟩
  have hfr := hctexts _ (by simp) ⟨[_], [], rfl, by simp⟩
  exact ⟨_, b, c, rfl, hb, hde.1, (hbc _ (by simp) ⟨[_], [], rfl, by simp⟩).trans hc, hfr.1⟩

/-- A localization may stand under the empty name, and no language names it. -/
theorem not_inLanguage_of_empty_name :
    ∃ a t b, ofFields (fieldsWithLanguages [[]]) = .ok a ∧ a.HasTexts [] t ∧
      a.inLanguage [] = .ok b ∧ b.title ≠ t.title :=
  ⟨_, ⟨['x'], [], []⟩, _, rfl, ⟨[], [], rfl, by simp⟩, rfl, by decide⟩

end Article

end ArticleArchive
