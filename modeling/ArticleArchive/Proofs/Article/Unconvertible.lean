import ArticleArchive.Article.Draft
import ArticleArchive.Proofs.Calendar.Ends
import ArticleArchive.Proofs.Results
import ArticleArchive.Proofs.Text.Numerals

namespace ArticleArchive

namespace Draft

/-- A text of digits, perhaps between blanks, that no number is read from. -/
def UnreadableNumber (v : Json) : Prop :=
  ∃ t, v = .str t ∧ (Text.strip t).IsUnreadable

/-- The identifier of a category is read with the blanks around it. -/
def UnreadableCategoryId (v : Json) : Prop :=
  ∃ t, v = .str t ∧ Text.isDigits (Text.strip t) = true ∧
    ((Text.strip t).IsUnreadable ∨ ∃ c ∈ t, Text.isSeparator c = true)

def UnreadableCategory (v : Json) : Prop :=
  ∃ fields, v = .obj fields ∧ (Json.fieldOrNull nameKey fields).isVoid = false ∧
    (UnreadableCategoryId (Json.fieldOrNull idKey fields) ∨
      (Json.fieldOrNull nameKey fields).isShowable = false)

/-- A time that has no universal time within the calendar. -/
def UnreachableTime (g : GivenTime) : Prop :=
  ∃ time offset, time.LeavesCalendar offset ∧
    (g = .time time (some offset) ∨
      ∃ t, g = .value (.str t) ∧ DateTime.ofIso? (Text.strip t) = some (time, some offset))

/-- A row that names a language by a value that can be a key. -/
def NamesLanguage (v : Json) : Prop :=
  ∃ fields, v = .obj fields ∧ (Json.fieldOrNull languageKey fields).isVoid = false ∧
    (Json.fieldOrNull languageKey fields).isScalar = true

/-- A row that names a language by a list or an object. -/
def Unkeyed (v : Json) : Prop :=
  ∃ fields, v = .obj fields ∧ (Json.fieldOrNull languageKey fields).isVoid = false ∧
    (Json.fieldOrNull languageKey fields).isScalar = false

/-- Rows of which the first that names no language by a key names it by a list or an object. -/
def UnkeyedRows (items : List Json) : Prop :=
  ∃ before v after, items = before ++ v :: after ∧ (∀ u ∈ before, NamesLanguage u) ∧ Unkeyed v

def UnkeyedLocalizations (g : GivenLocalizations) : Prop :=
  ∃ items, g = .value (.arr items) ∧ UnkeyedRows items

variable {α β : Type} {u : Unconvertible}

@[simp] theorem refuse_ne_unconvertible (e : InvalidArticle) :
    refuse (α := α) e ≠ .error (.unconvertible u) := by
  simp [refuse]

@[simp] theorem positiveId_ne_unconvertible (i : Int) :
    positiveId i ≠ .error (.unconvertible u) := by
  unfold positiveId
  split <;> simp

@[simp] theorem naturalCount_ne_unconvertible (i : Int) :
    naturalCount i ≠ .error (.unconvertible u) := by
  unfold naturalCount
  split <;> simp

theorem unconvertible_eq_iff {v : Unconvertible} :
    (.error (.unconvertible v) : Except DraftError α) = .error (.unconvertible u) ↔ u = v := by
  simp [eq_comm]

theorem digitsValue_eq_unconvertible_iff {t : Text} :
    digitsValue t = .error (.unconvertible u) ↔ u = .numeral ∧ Text.integer? t = none := by
  unfold digitsValue
  split
  · rename_i i hi
    simp [hi]
  · rename_i hi
    rw [unconvertible_eq_iff, and_iff_left hi]

theorem readNumber_eq_unconvertible_iff {t : Text} {absent : Except DraftError α}
    {judge : Int → Except DraftError α} {e : InvalidArticle}
    (habsent : absent ≠ .error (.unconvertible u))
    (hjudge : ∀ i, judge i ≠ .error (.unconvertible u)) :
    (if t.isEmpty = true then absent
      else if Text.isDigits (Text.strip t) = true then (digitsValue (Text.strip t)).bind judge
      else refuse e) = .error (.unconvertible u) ↔
      u = .numeral ∧ (Text.strip t).IsUnreadable := by
  split
  · rename_i he
    obtain rfl : t = [] := by simpa using he
    have hnil : ¬ (Text.strip []).IsUnreadable := by
      simp [Text.IsUnreadable, Text.strip, Text.trimBy, Text.isDigits]
    exact iff_of_false habsent fun h => hnil h.2
  · split
    · rename_i ht
      rw [← Text.integer?_eq_none_iff ht, ← digitsValue_eq_unconvertible_iff]
      constructor
      · intro h
        refine (bind_eq_error_iff.mp h).resolve_right ?_
        rintro ⟨i, -, hi⟩
        exact hjudge i hi
      · intro h
        rw [h]
        rfl
    · rename_i ht
      exact iff_of_false (refuse_ne_unconvertible e) fun h => ht h.2.1

theorem normalId_eq_unconvertible_iff {v : Json} :
    normalId v = .error (.unconvertible u) ↔ u = .numeral ∧ UnreadableNumber v := by
  cases v with
  | str t =>
    simp only [normalId, UnreadableNumber, Json.str.injEq, exists_eq_left']
    exact readNumber_eq_unconvertible_iff (refuse_ne_unconvertible _) positiveId_ne_unconvertible
  | _ => simp [normalId, UnreadableNumber]

theorem normalViewCount_eq_unconvertible_iff {v : Json} :
    normalViewCount v = .error (.unconvertible u) ↔ u = .numeral ∧ UnreadableNumber v := by
  cases v with
  | str t =>
    simp only [normalViewCount, UnreadableNumber, Json.str.injEq, exists_eq_left']
    exact readNumber_eq_unconvertible_iff (by simp) naturalCount_ne_unconvertible
  | float x =>
    simp only [normalViewCount, UnreadableNumber]
    split <;> simp
  | _ => simp [normalViewCount, UnreadableNumber]

theorem normalTitle_ne_unconvertible (v : Json) : normalTitle v ≠ .error (.unconvertible u) := by
  unfold normalTitle
  split
  · dsimp only
    split <;> simp
  · simp

theorem normalText_ne_unconvertible (v : Json) : normalText v ≠ .error (.unconvertible u) := by
  unfold normalText
  split
  · simp
  · split <;> simp

theorem categoryId_eq_unconvertible_iff {v : Json} :
    categoryId v = .error (.unconvertible u) ↔ u = .numeral ∧ UnreadableCategoryId v := by
  cases v with
  | str t =>
    simp only [categoryId, UnreadableCategoryId, Json.str.injEq, exists_eq_left']
    split
    · rename_i ht
      rw [and_iff_right ht, ← Text.integer?_eq_none_iff_of_strip ht,
        ← digitsValue_eq_unconvertible_iff]
      cases digitsValue t <;> simp [Except.map]
    · simp_all
  | _ => simp [categoryId, UnreadableCategoryId]

theorem categoryName_eq_unconvertible_iff {v : Json} :
    categoryName v = .error (.unconvertible u) ↔ u = .numeral ∧ v.isShowable = false := by
  unfold categoryName
  split
  · rename_i hv
    simp [hv]
  · rename_i hv
    rw [unconvertible_eq_iff, and_iff_left (by simpa using hv)]

theorem categoryId_ne_invalid (v : Json) (e : InvalidArticle) :
    categoryId v ≠ .error (.invalid e) := by
  unfold categoryId
  split
  · split
    · unfold digitsValue
      split <;> simp [Except.map]
    · simp
  · simp

theorem namedCategory_eq_unconvertible_iff {id name : Json} :
    namedCategory id name = .error (.unconvertible u) ↔
      u = .numeral ∧ (UnreadableCategoryId id ∨ name.isShowable = false) := by
  unfold namedCategory
  simp only [bind_eq_error_iff, categoryId_eq_unconvertible_iff, categoryName_eq_unconvertible_iff]
  constructor
  · rintro (⟨rfl, h⟩ | ⟨i, -, ⟨rfl, h⟩ | ⟨n, -, h⟩⟩)
    · exact ⟨rfl, .inl h⟩
    · exact ⟨rfl, .inr h⟩
    · simp [pure, Except.pure] at h
  · rintro ⟨rfl, h⟩
    cases hi : categoryId id with
    | ok i =>
      refine .inr ⟨i, rfl, .inl ⟨rfl, h.resolve_left fun hid => ?_⟩⟩
      rw [categoryId_eq_unconvertible_iff.mpr ⟨rfl, hid⟩] at hi
      simp at hi
    | error e =>
      cases e with
      | invalid e => exact absurd hi (categoryId_ne_invalid id e)
      | unconvertible u => exact .inl ⟨rfl, (categoryId_eq_unconvertible_iff.mp hi).2⟩

theorem normalCategory_eq_unconvertible_iff {v : Json} :
    normalCategory v = .error (.unconvertible u) ↔ u = .numeral ∧ UnreadableCategory v := by
  have hmap {x : Except DraftError Category} :
      x.map some = .error (.unconvertible u) ↔ x = .error (.unconvertible u) := by
    cases x <;> simp [Except.map]
  cases v with
  | obj fields =>
    simp only [normalCategory, UnreadableCategory, Json.obj.injEq, exists_eq_left']
    split
    · simp_all
    · rename_i hv
      rw [hmap, namedCategory_eq_unconvertible_iff]
      simp [hv]
  | str t =>
    simp only [normalCategory, UnreadableCategory]
    split
    · simp
    · rw [hmap, namedCategory_eq_unconvertible_iff]
      simp [UnreadableCategoryId, Json.isShowable]
  | _ => simp [normalCategory, UnreadableCategory]

theorem universalTime_eq_unconvertible_iff {t : DateTime} {offset : Option UtcOffset} :
    universalTime t offset = .error (.unconvertible u) ↔
      u = .instant ∧ ∃ o, offset = some o ∧ t.LeavesCalendar o := by
  cases offset with
  | none => simp [universalTime]
  | some o =>
    simp only [universalTime, Option.some.injEq, exists_eq_left', ← DateTime.toUtc?_eq_none_iff]
    split
    · rename_i t' ht
      simp [ht]
    · rename_i ht
      rw [unconvertible_eq_iff, and_iff_left ht]

theorem normalCreatedAt_eq_unconvertible_iff {g : GivenTime} :
    normalCreatedAt g = .error (.unconvertible u) ↔ u = .instant ∧ UnreachableTime g := by
  cases g with
  | day d => simp [normalCreatedAt, UnreachableTime]
  | time t offset =>
    rw [normalCreatedAt, universalTime_eq_unconvertible_iff]
    constructor
    · rintro ⟨rfl, o, rfl, h⟩
      exact ⟨rfl, t, o, h, .inl rfl⟩
    · rintro ⟨rfl, t', o, h, he | ⟨s, he, -⟩⟩
      · obtain ⟨rfl, rfl⟩ := by simpa using he
        exact ⟨rfl, o, rfl, h⟩
      · simp at he
  | value v =>
    cases v with
    | str t =>
      have hblank : DateTime.ofIso? (Text.strip []) = none := rfl
      simp only [normalCreatedAt, UnreachableTime]
      split
      · rename_i he
        -- the empty text is refused before it is read, and no time is read from it
        obtain rfl : t = [] := by simpa using he
        simp [hblank]
      · split
        · rename_i time offset hiso
          rw [universalTime_eq_unconvertible_iff]
          simp only [reduceCtorEq, false_or, GivenTime.value.injEq, Json.str.injEq,
            exists_eq_left', hiso, Option.some.injEq, Prod.mk.injEq]
          constructor
          · rintro ⟨rfl, o, rfl, h⟩
            exact ⟨rfl, time, o, h, rfl, rfl⟩
          · rintro ⟨rfl, _, o, h, rfl, rfl⟩
            exact ⟨rfl, o, rfl, h⟩
        · rename_i hiso
          simp [hiso]
    | _ => simp [normalCreatedAt, UnreachableTime]

theorem addRow_eq_ok_iff (rows : List (Json × Json)) {v : Json} :
    (∃ rows', addRow rows v = .ok rows') ↔ NamesLanguage v := by
  cases v with
  | obj fields =>
    simp only [addRow, NamesLanguage, Json.obj.injEq, exists_eq_left']
    split
    · simp_all [refuse]
    · split <;> simp_all
  | _ => simp [addRow, NamesLanguage, refuse]

theorem addRow_eq_unconvertible_iff {rows : List (Json × Json)} {v : Json} :
    addRow rows v = .error (.unconvertible u) ↔ u = .language ∧ Unkeyed v := by
  cases v with
  | obj fields =>
    simp only [addRow, Unkeyed, Json.obj.injEq, exists_eq_left']
    split
    · rename_i hv
      simp [hv]
    · rename_i hv
      split
      · rename_i hs
        simp [hs]
      · rename_i hs
        rw [unconvertible_eq_iff]
        simp [hv, hs]
  | _ => simp [addRow, Unkeyed]

theorem unkeyedRows_cons_iff {v : Json} {items : List Json} :
    UnkeyedRows (v :: items) ↔ Unkeyed v ∨ NamesLanguage v ∧ UnkeyedRows items := by
  constructor
  · rintro ⟨before, w, after, he, hb, hw⟩
    cases before with
    | nil =>
      obtain ⟨rfl, -⟩ := List.cons.inj he
      exact .inl hw
    | cons b before =>
      obtain ⟨rfl, rfl⟩ := List.cons.inj he
      exact .inr ⟨hb v List.mem_cons_self, before, w, after, rfl,
        fun u hu => hb u (List.mem_cons_of_mem v hu), hw⟩
  · rintro (hv | ⟨hv, before, w, after, rfl, hb, hw⟩)
    · exact ⟨[], v, items, rfl, by simp, hv⟩
    · exact ⟨v :: before, w, after, rfl, List.forall_mem_cons.mpr ⟨hv, hb⟩, hw⟩

theorem foldlM_addRow_eq_unconvertible_iff {items : List Json} (rows : List (Json × Json)) :
    items.foldlM addRow rows = .error (.unconvertible u) ↔ u = .language ∧ UnkeyedRows items := by
  induction items generalizing rows with
  | nil =>
    have : ¬ UnkeyedRows [] := by simp [UnkeyedRows]
    simp [this, pure, Except.pure]
  | cons v items ih =>
    rw [List.foldlM_cons, bind_eq_error_iff, unkeyedRows_cons_iff, addRow_eq_unconvertible_iff]
    simp only [ih]
    constructor
    · rintro (⟨rfl, h⟩ | ⟨rows', hok, rfl, h⟩)
      · exact ⟨rfl, .inl h⟩
      · exact ⟨rfl, .inr ⟨(addRow_eq_ok_iff rows).mp ⟨rows', hok⟩, h⟩⟩
    · rintro ⟨rfl, h | ⟨hv, h⟩⟩
      · exact .inl ⟨rfl, h⟩
      · obtain ⟨rows', hok⟩ := (addRow_eq_ok_iff rows).mpr hv
        exact .inr ⟨rows', hok, rfl, h⟩

theorem normalLocalization_ne_unconvertible (language row : Json) :
    normalLocalization language row ≠ .error (.unconvertible u) := by
  unfold normalLocalization
  split
  · intro h
    rcases bind_eq_error_iff.mp h with h | ⟨_, _, h⟩
    · exact normalTitle_ne_unconvertible _ h
    · rcases bind_eq_error_iff.mp h with h | ⟨_, _, h⟩
      · exact normalText_ne_unconvertible _ h
      · rcases bind_eq_error_iff.mp h with h | ⟨_, _, h⟩
        · exact normalText_ne_unconvertible _ h
        · simp [pure, Except.pure] at h
  · simp

theorem normalRows_ne_unconvertible (rows : List (Json × Json)) :
    normalRows rows ≠ .error (.unconvertible u) := by
  intro h
  obtain ⟨r, -, hr⟩ := exists_of_mapM_eq_error h
  exact normalLocalization_ne_unconvertible _ _ hr

theorem normalLocalizations_eq_unconvertible_iff {g : GivenLocalizations} :
    normalLocalizations g = .error (.unconvertible u) ↔ u = .language ∧ UnkeyedLocalizations g := by
  cases g with
  | rows rows => simp [normalLocalizations, UnkeyedLocalizations, normalRows_ne_unconvertible]
  | value v =>
    cases v with
    | arr items =>
      have hnil : ¬ UnkeyedRows [] := by simp [UnkeyedRows]
      simp only [normalLocalizations, UnkeyedLocalizations, GivenLocalizations.value.injEq,
        Json.arr.injEq, exists_eq_left']
      split
      · rename_i hv
        obtain rfl : items = [] := by simpa [Json.isVoid] using hv
        simp [hnil]
      · -- once the rows are told apart by language, each is in normal form or refused
        rw [← foldlM_addRow_eq_unconvertible_iff []]
        constructor
        · intro h
          exact (bind_eq_error_iff.mp h).resolve_right fun ⟨rows, _, hr⟩ =>
            normalRows_ne_unconvertible rows hr
        · intro h
          rw [h]
          rfl
    | obj fields =>
      simp only [normalLocalizations, UnkeyedLocalizations]
      split <;> simp [normalRows_ne_unconvertible]
    | _ =>
      simp only [normalLocalizations, UnkeyedLocalizations]
      split <;> simp

/-- The fields before the category have a normal form. -/
structure HasTexts (d : Draft) : Prop where
  id : ∃ i, normalId d.id = .ok i
  title : ∃ t, normalTitle d.title = .ok t
  content : ∃ t, normalText d.content = .ok t
  summary : ∃ t, normalText d.summary = .ok t

/-- No rule refuses the draft up to a value that still has no normal form. -/
inductive Breaks (d : Draft) : Unconvertible → Prop
  | id (h : UnreadableNumber d.id) : Breaks d .numeral
  | category (ht : d.HasTexts) (h : UnreadableCategory d.category) : Breaks d .numeral
  | createdAt (ht : d.HasTexts) (hc : ∃ c, normalCategory d.category = .ok c)
      (h : UnreachableTime d.createdAt) : Breaks d .instant
  | viewCount (ht : d.HasTexts) (hc : ∃ c, normalCategory d.category = .ok c)
      (hd : ∃ t, normalCreatedAt d.createdAt = .ok t) (h : UnreadableNumber d.viewCount) :
      Breaks d .numeral
  | localizations (ht : d.HasTexts) (hc : ∃ c, normalCategory d.category = .ok c)
      (hd : ∃ t, normalCreatedAt d.createdAt = .ok t)
      (hv : ∃ n, normalViewCount d.viewCount = .ok n) (h : UnkeyedLocalizations d.localizations) :
      Breaks d .language

end Draft

namespace Article

open Draft

theorem ofDraft_eq_unconvertible_iff {d : Draft} {u : Unconvertible} :
    ofDraft d = .error (.unconvertible u) ↔ d.Breaks u := by
  unfold ofDraft
  -- field by field: what comes before the one that breaks has its normal form
  simp only [bind_eq_error_iff, normalId_eq_unconvertible_iff, normalTitle_ne_unconvertible,
    normalText_ne_unconvertible, normalCategory_eq_unconvertible_iff,
    normalCreatedAt_eq_unconvertible_iff, normalViewCount_eq_unconvertible_iff,
    normalLocalizations_eq_unconvertible_iff, false_or, pure, Except.pure, reduceCtorEq, and_false,
    exists_false, or_false]
  constructor
  · rintro (⟨rfl, h⟩ | ⟨i, hi, t, ht, c, hc, s, hs, h⟩)
    · exact .id h
    · have htexts : d.HasTexts := ⟨⟨i, hi⟩, ⟨t, ht⟩, ⟨c, hc⟩, ⟨s, hs⟩⟩
      rcases h with ⟨rfl, h⟩ | ⟨k, hk, ⟨rfl, h⟩ | ⟨w, hw, ⟨rfl, h⟩ | ⟨n, hn, rfl, h⟩⟩⟩
      · exact .category htexts h
      · exact .createdAt htexts ⟨k, hk⟩ h
      · exact .viewCount htexts ⟨k, hk⟩ ⟨w, hw⟩ h
      · exact .localizations htexts ⟨k, hk⟩ ⟨w, hw⟩ ⟨n, hn⟩ h
  · intro h
    cases h with
    | id h => exact .inl ⟨rfl, h⟩
    | category ht h =>
      obtain ⟨⟨i, hi⟩, ⟨t, ht⟩, ⟨c, hc⟩, ⟨s, hs⟩⟩ := ht
      exact .inr ⟨i, hi, t, ht, c, hc, s, hs, .inl ⟨rfl, h⟩⟩
    | createdAt ht hk h =>
      obtain ⟨⟨i, hi⟩, ⟨t, ht⟩, ⟨c, hc⟩, ⟨s, hs⟩⟩ := ht
      obtain ⟨k, hk⟩ := hk
      exact .inr ⟨i, hi, t, ht, c, hc, s, hs, .inr ⟨k, hk, .inl ⟨rfl, h⟩⟩⟩
    | viewCount ht hk hw h =>
      obtain ⟨⟨i, hi⟩, ⟨t, ht⟩, ⟨c, hc⟩, ⟨s, hs⟩⟩ := ht
      obtain ⟨k, hk⟩ := hk
      obtain ⟨w, hw⟩ := hw
      exact .inr ⟨i, hi, t, ht, c, hc, s, hs, .inr ⟨k, hk, .inr ⟨w, hw, .inl ⟨rfl, h⟩⟩⟩⟩
    | localizations ht hk hw hn h =>
      obtain ⟨⟨i, hi⟩, ⟨t, ht⟩, ⟨c, hc⟩, ⟨s, hs⟩⟩ := ht
      obtain ⟨k, hk⟩ := hk
      obtain ⟨w, hw⟩ := hw
      obtain ⟨n, hn⟩ := hn
      exact .inr ⟨i, hi, t, ht, c, hc, s, hs, .inr ⟨k, hk, .inr ⟨w, hw, .inr ⟨n, hn, rfl, h⟩⟩⟩⟩

end Article

end ArticleArchive
