import ArticleArchive.Proofs.Article.NormalForm
import ArticleArchive.Proofs.Calendar.IsoText
import ArticleArchive.Service.Document

namespace ArticleArchive

namespace Binary64

theorem hasWord_written (x : Binary64) : x.written.HasWord := by
  cases x with
  | nan => exact ⟨'n', by decide, rfl⟩
  | infinite negative => exact ⟨'n', by simp [written], rfl⟩
  | finite negative m e =>
    simp only [written]
    split
    · exact ⟨'.', by simp, rfl⟩
    · split
      · refine ⟨'.', List.mem_append_right _ ?_, rfl⟩
        unfold positional
        split <;> simp
      · exact ⟨'e', List.mem_append_right _ (by simp [scientific]), rfl⟩

end Binary64

namespace Json

theorem hasWord_digitsOf (i : Int) : (digitsOf i).HasWord := by
  have hlen := Nat.length_toDigits_pos (b := 10) (n := i.natAbs)
  obtain ⟨c, cs, hdigits⟩ := List.exists_cons_of_length_pos hlen
  have hc : c ∈ Nat.toDigits 10 i.natAbs := hdigits ▸ List.mem_cons_self
  refine ⟨c, ?_, Text.isBlank_of_isDigit (Nat.isDigit_of_mem_toDigits (by decide) (by decide) hc)⟩
  unfold digitsOf
  split
  · exact List.mem_cons_of_mem _ hc
  · exact hc

theorem hasWord_shown (v : Json) : v.shown.HasWord := by
  cases v with
  | null => exact ⟨'N', by decide, rfl⟩
  | bool b => cases b <;> exact ⟨'e', by decide, rfl⟩
  | int i => exact hasWord_digitsOf i
  | float x => exact x.hasWord_written
  | str t =>
    refine ⟨Text.quoteFor t, List.mem_cons_self, ?_⟩
    unfold Text.quoteFor
    split <;> rfl
  | arr items => exact ⟨'[', List.mem_cons_self, rfl⟩
  | obj fields => exact ⟨'\x7b', List.mem_cons_self, rfl⟩

theorem hasWord_plain {v : Json} (h : ∀ t, v ≠ .str t) : v.plain.HasWord := by
  cases v with
  | str t => exact absurd rfl (h t)
  | _ => exact hasWord_shown _

end Json

namespace Draft

theorem normalTitle_of_ok {v : Json} {t : Text} (h : normalTitle v = .ok t) :
    normalTitle (.str t) = .ok t := by
  have htidy := isTidy_of_normalTitle h
  have hword : t.HasWord := ⟨_, List.head_mem htidy.ne_nil,
    htidy.head _ (List.head?_eq_some_head htidy.ne_nil)⟩
  rw [normalTitle_of_hasWord hword, htidy.singleSpaced_eq]

theorem normalText_of_ok {v : Json} {t : Text} (h : normalText v = .ok t) :
    normalText (.str t) = .ok t := by
  rw [normalText_str]
  unfold normalText at h
  split at h
  · obtain rfl := Except.ok.inj h
    rfl
  · split at h
    · obtain rfl := Except.ok.inj h
      rw [Text.strip_strip]
    · simp [refuse] at h

theorem categoryId_of_ok {v w : Json} (h : categoryId v = .ok w) : categoryId w = .ok w := by
  unfold categoryId at h
  split at h
  · rename_i t
    split at h
    · obtain ⟨i, -, rfl⟩ := map_eq_ok_iff.mp h
      rfl
    · rename_i hdigits
      obtain rfl := Except.ok.inj h
      exact if_neg hdigits
  · rename_i hnot
    obtain rfl := Except.ok.inj h
    cases v with
    | str t => exact absurd rfl (hnot t)
    | _ => rfl

theorem namedCategory_eq_ok {id name : Json} {c : Category} (h : namedCategory id name = .ok c) :
    categoryId id = .ok c.id ∧ c.name = Text.singleSpaced name.plain := by
  obtain ⟨i, hi, h⟩ := bind_eq_ok_iff.mp h
  obtain ⟨n, hn, h⟩ := bind_eq_ok_iff.mp h
  obtain rfl := Except.ok.inj h
  unfold categoryName at hn
  split at hn
  · exact ⟨hi, (Except.ok.inj hn).symm⟩
  · simp at hn

theorem namedCategory_of_ok {id name : Json} {c : Category} (h : namedCategory id name = .ok c) :
    namedCategory c.id (.str c.name) = .ok c := by
  obtain ⟨hid, hname⟩ := namedCategory_eq_ok h
  have hsettled : categoryName (.str c.name) = .ok c.name := by
    rw [categoryName, hname]
    exact congrArg _ (Text.singleSpaced_singleSpaced _)
  rw [namedCategory, categoryId_of_ok hid, hsettled]
  rfl

/-- The value is an object that names a category by a text of blanks. -/
def IsBlankCategory (v : Json) : Prop :=
  ∃ fields t, v = .obj fields ∧ Json.fieldOrNull nameKey fields = .str t ∧ t ≠ [] ∧ ¬ t.HasWord

/-- A category has an empty name if and only if blanks were given for it in an object. -/
theorem normalCategory_eq_some {v : Json} {c : Category} (h : normalCategory v = .ok (some c)) :
    (∃ id name, namedCategory id name = .ok c) ∧ (c.name = [] ↔ IsBlankCategory v) := by
  unfold normalCategory at h
  split at h
  · simp at h
  · rename_i fields
    dsimp only at h
    split at h
    · simp at h
    · rename_i hvoid
      obtain ⟨c', hc, hc'⟩ := map_eq_ok_iff.mp h
      obtain rfl := Option.some.inj hc'
      obtain ⟨-, hname⟩ := namedCategory_eq_ok hc
      refine ⟨⟨_, _, hc⟩, ?_⟩
      rw [hname, ← not_iff_not, ← ne_eq, Text.singleSpaced_ne_nil_iff]
      constructor
      · rintro hword ⟨fields', t, hfields, ht, -, hblank⟩
        obtain rfl := Json.obj.inj hfields
        rw [ht] at hword
        exact hblank hword
      · intro hnot
        by_contra hword
        -- a name that is no text is shown with a word in it
        obtain ⟨t, ht⟩ : ∃ t, Json.fieldOrNull nameKey fields = .str t := by
          by_contra hno
          exact hword (Json.hasWord_plain (not_exists.mp hno))
        rw [ht] at hvoid hword
        exact hnot ⟨fields, t, rfl, ht, by simpa [Json.isVoid] using hvoid, hword⟩
  · rename_i t
    split at h
    · simp at h
    · rename_i hstrip
      obtain ⟨c', hc, hc'⟩ := map_eq_ok_iff.mp h
      obtain rfl := Option.some.inj hc'
      obtain ⟨-, hname⟩ := namedCategory_eq_ok hc
      have hword : t.HasWord := Text.hasWord_of_strip_ne_nil (by simpa using hstrip)
      refine ⟨⟨_, _, hc⟩, iff_of_false ?_ ?_⟩
      · rw [hname]
        exact Text.singleSpaced_ne_nil_iff.mpr hword
      · rintro ⟨fields, name, hfields, -⟩
        simp at hfields
  · simp [refuse] at h

theorem exists_empty_name_iff {v : Json} {c : Option Category} (h : normalCategory v = .ok c) :
    (∃ k ∈ c, k.name = []) ↔ IsBlankCategory v := by
  cases c with
  | none =>
    refine iff_of_false (by simp) ?_
    rintro ⟨fields, t, rfl, ht, hne, -⟩
    rw [normalCategory, ht, if_neg (by simpa [Json.isVoid] using hne)] at h
    obtain ⟨c, -, hc⟩ := map_eq_ok_iff.mp h
    simp at hc
  | some c => simpa using (normalCategory_eq_some h).2

theorem normalCategory_written (c : Category) :
    normalCategory c.toJson =
      if c.name.isEmpty then .ok none else (namedCategory c.id (.str c.name)).map some :=
  rfl

theorem normalCategory_of_ok {v : Json} {c : Option Category} (h : normalCategory v = .ok c) :
    normalCategory (c.elim .null Category.toJson) = .ok (c.filter fun c => !c.name.isEmpty) := by
  cases c with
  | none => rfl
  | some c =>
    obtain ⟨⟨id, name, hc⟩, -⟩ := normalCategory_eq_some h
    rw [Option.elim_some, normalCategory_written, namedCategory_of_ok hc, Option.filter_some]
    split <;> simp_all [Except.map]

theorem normalCreatedAt_text (t : DateTime) : normalCreatedAt (.value (.str t.text)) = .ok t := by
  have hne : t.text ≠ [] := by simp [DateTime.text_eq]
  rw [normalCreatedAt, if_neg (by simpa using hne), DateTime.strip_text, DateTime.ofIso?_text]
  rfl

theorem normalLocalization_toJson (language : Json) (t : Localization) :
    normalLocalization language t.toJson = (do
      let title ← normalTitle (.str t.title)
      let content ← normalText (.str t.content)
      let summary ← normalText (.str t.summary)
      return (language, ⟨title, content, summary⟩)) := by
  have hfields : t.toJson = .obj [(titleKey, .str t.title), (contentKey, .str t.content),
      (summaryKey, .str t.summary)] := rfl
  rw [hfields]
  rfl

theorem normalLocalization_of_ok {language row : Json} {t : Json × Localization}
    (h : normalLocalization language row = .ok t) : normalLocalization t.1 t.2.toJson = .ok t := by
  obtain ⟨-, ⟨title, htitle⟩, ⟨content, hcontent⟩, summary, hsummary⟩ := normalLocalization_eq_ok h
  rw [normalLocalization_toJson, normalTitle_of_ok htitle, normalText_of_ok hcontent,
    normalText_of_ok hsummary]
  rfl

theorem normalLocalizations_of_ok {g : GivenLocalizations} {ts : List (Json × Localization)}
    (h : normalLocalizations g = .ok ts) :
    normalLocalizations (.rows (ts.map fun t => (t.1, t.2.toJson))) = .ok ts := by
  -- rows that are given by language are read each for itself
  rw [normalLocalizations, normalRows, List.mapM_map, mapM_eq_ok_iff, List.forall₂_same]
  intro t ht
  obtain ⟨language, row, hrow⟩ := exists_of_mem_normalLocalizations h ht
  exact normalLocalization_of_ok hrow

end Draft

namespace Article

def draft (a : Article) : Draft :=
  { Draft.ofFields a.fields with
    localizations := .rows (a.localizations.map fun t => (t.1, t.2.toJson)) }

/-- The article without its category if the name of that is empty. -/
def withoutEmptyCategory (a : Article) : Article :=
  { a with category := a.category.filter fun c => !c.name.isEmpty }

theorem withoutEmptyCategory_eq_self_iff {a : Article} :
    a.withoutEmptyCategory = a ↔ ¬ ∃ c ∈ a.category, c.name = [] := by
  obtain ⟨id, title, content, summary, category, createdAt, viewCount, localizations⟩ := a
  cases category with
  | none => simp [withoutEmptyCategory]
  | some c => simp [withoutEmptyCategory]

theorem category_withoutEmptyCategory {a : Article} (h : ∃ c ∈ a.category, c.name = []) :
    a.withoutEmptyCategory.category = none := by
  obtain ⟨c, hc, hname⟩ := h
  simp [withoutEmptyCategory, Option.mem_def.mp hc, hname]

theorem withoutEmptyCategory_idem (a : Article) :
    a.withoutEmptyCategory.withoutEmptyCategory = a.withoutEmptyCategory := by
  simp [withoutEmptyCategory, Option.filter_filter]

/-- An article that is written out and read again loses a category with an empty name and nothing
else. -/
theorem ofDraft_draft {d : Draft} {a : Article} (h : ofDraft d = .ok a) :
    ofDraft a.draft = .ok a.withoutEmptyCategory := by
  obtain ⟨hid, htitle, hcontent, hsummary, hcategory, -, -, hlocalizations⟩ := ofDraft_eq_ok h
  have hid' : Draft.normalId a.draft.id = .ok a.id :=
    Draft.normalId_int (Int.ofNat_le.mpr (Draft.pos_of_normalId hid))
  have htitle' : Draft.normalTitle a.draft.title = .ok a.title := Draft.normalTitle_of_ok htitle
  have hcontent' : Draft.normalText a.draft.content = .ok a.content :=
    Draft.normalText_of_ok hcontent
  have hsummary' : Draft.normalText a.draft.summary = .ok a.summary :=
    Draft.normalText_of_ok hsummary
  -- the one field that may come back changed
  have hcategory' := Draft.normalCategory_of_ok hcategory
  have hcreatedAt' : Draft.normalCreatedAt a.draft.createdAt = .ok a.createdAt :=
    Draft.normalCreatedAt_text a.createdAt
  have hviewCount' : Draft.normalViewCount a.draft.viewCount = .ok a.viewCount :=
    Draft.normalViewCount_int (Int.natCast_nonneg _)
  have hlocalizations' : Draft.normalLocalizations a.draft.localizations = .ok a.localizations :=
    Draft.normalLocalizations_of_ok hlocalizations
  rw [ofDraft, hid', htitle', hcontent', hsummary',
    show Draft.normalCategory a.draft.category = _ from hcategory', hcreatedAt', hviewCount',
    hlocalizations']
  rfl

/-- An article that is written out and read again is the same article if and only if its category
was not given as blanks in an object, and has no category then. Doing it once more changes
nothing. -/
theorem read_back_iff {d : Draft} {a : Article} (h : ofDraft d = .ok a) :
    ∃ b, ofDraft a.draft = .ok b ∧ b = { a with category := b.category } ∧
      (b = a ↔ ¬ Draft.IsBlankCategory d.category) ∧
      (Draft.IsBlankCategory d.category → b.category = none) ∧ ofDraft b.draft = .ok b := by
  have hback := ofDraft_draft h
  have hagain := ofDraft_draft hback
  obtain ⟨-, -, -, -, hcategory, -⟩ := ofDraft_eq_ok h
  rw [withoutEmptyCategory_idem] at hagain
  rw [← Draft.exists_empty_name_iff hcategory]
  exact ⟨_, hback, rfl, withoutEmptyCategory_eq_self_iff, category_withoutEmptyCategory, hagain⟩

/-- A name of two spaces makes a category with an empty name, which is written out as one and read
again as none. -/
theorem not_read_back_blank_category :
    let fields : List (Text × Json) :=
      [(Draft.idKey, .int 1), (Draft.titleKey, .str ['t']),
        (Draft.createdAtKey, .str "2024-01-01".toList),
        (Draft.categoryKey, .obj [(Draft.idKey, .int 1), (Draft.nameKey, .str [' ', ' '])])]
    ∃ a b, ofFields fields = .ok a ∧ a.category = some ⟨.int 1, []⟩ ∧ ofDraft a.draft = .ok b ∧
      b.category = none ∧ b ≠ a := by
  intro fields
  obtain ⟨a, ha, hcategory⟩ : ∃ a, ofFields fields = .ok a ∧ a.category = some ⟨.int 1, []⟩ :=
    ⟨_, rfl, rfl⟩
  obtain ⟨b, hb, -, hsame, hnone, -⟩ := read_back_iff ha
  have hblank : Draft.IsBlankCategory (Draft.ofFields fields).category :=
    ⟨_, _, rfl, rfl, List.cons_ne_nil _ _, by simp [Text.HasWord, Text.isBlank, Text.isSpace]⟩
  exact ⟨a, b, ha, hcategory, hb, hnone hblank, fun he => hsame.mp he hblank⟩

end Article

end ArticleArchive
