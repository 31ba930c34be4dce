import ArticleArchive.Proofs.Calendar.Instants
import ArticleArchive.Proofs.Calendar.IsoText
import ArticleArchive.Service.Archive

namespace ArticleArchive

open Text

namespace GivenTime

/-- A local time is given with an offset, or a text that is read as the two. -/
inductive Gives (t : DateTime) (o : UtcOffset) : GivenTime → Prop
  | time : Gives t o (.time t (some o))
  | text {x : Text} : DateTime.ofIso? (strip x) = some (t, some o) → Gives t o (.value (.str x))

/-- A local time is given with an offset, or a text that spells the two. -/
inductive Means (t : DateTime) (o : UtcOffset) : GivenTime → Prop
  | time : Means t o (.time t (some o))
  | text {x y z : Text} : t.IsSpelled x → o.IsSpelled y → strip z = x ++ y →
      Means t o (.value (.str z))

/-- What is given becomes the time at an instant, and is refused only if the calendar has none. -/
structure KeepsInstant (g : GivenTime) (i : Int) : Prop where
  inside : DateTime.InCalendar i → ∃ u, Draft.normalCreatedAt g = .ok u ∧ u.instant = i
  outside : ¬ DateTime.InCalendar i → Draft.normalCreatedAt g = .error (.unconvertible .instant)

end GivenTime

namespace Draft

variable {g : GivenTime} {t : DateTime} {o : UtcOffset}

theorem normalCreatedAt_of_text {x : Text} {read : DateTime × Option UtcOffset}
    (h : DateTime.ofIso? (strip x) = some read) :
    normalCreatedAt (.value (.str x)) = universalTime read.1 read.2 := by
  have hne : x ≠ [] := by
    rintro rfl
    have hempty : DateTime.ofIso? (strip []) = none := rfl
    rw [hempty] at h
    simp at h
  rw [normalCreatedAt, if_neg (by simpa using hne), h]

theorem universalTime_of_inCalendar (h : DateTime.InCalendar (t.instant - o.micros)) :
    ∃ u, universalTime t (some o) = .ok u ∧ u.instant = t.instant - o.micros := by
  cases hutc : t.toUtc? o with
  | none => exact absurd h (DateTime.toUtc?_eq_none_iff_not_inCalendar.mp hutc)
  | some u => exact ⟨u, by rw [universalTime, hutc], DateTime.instant_of_toUtc? hutc⟩

theorem universalTime_of_not_inCalendar (h : ¬ DateTime.InCalendar (t.instant - o.micros)) :
    universalTime t (some o) = .error (.unconvertible .instant) := by
  rw [universalTime, DateTime.toUtc?_eq_none_iff_not_inCalendar.mpr h]

end Draft

namespace GivenTime

variable {g : GivenTime} {t : DateTime} {o : UtcOffset}

theorem Gives.keepsInstant (h : g.Gives t o) : g.KeepsInstant (t.instant - o.micros) := by
  have hg : Draft.normalCreatedAt g = Draft.universalTime t (some o) := by
    cases h with
    | time => rfl
    | text hread => exact Draft.normalCreatedAt_of_text hread
  constructor
  · rw [hg]
    exact Draft.universalTime_of_inCalendar
  · rw [hg]
    exact Draft.universalTime_of_not_inCalendar

theorem KeepsInstant.eq {i : Int} (h : g.KeepsInstant i) (ht : g.KeepsInstant t.instant) :
    i = t.instant := by
  obtain ⟨u, hu, hinstant⟩ := ht.inside t.inCalendar_instant
  by_cases hi : DateTime.InCalendar i
  · obtain ⟨v, hv, rfl⟩ := h.inside hi
    obtain rfl := Except.ok.inj (hu.symm.trans hv)
    exact hinstant
  · rw [h.outside hi] at hu
    simp at hu

theorem keepsInstant_text_iff {x y z : Text} (hx : t.IsSpelled x) (hy : o.IsSpelled y)
    (hz : strip z = x ++ y) : KeepsInstant (.value (.str z)) (t.instant - o.micros) ↔
      o.micros = 0 ∨ 1000000 ≤ o.micros.natAbs := by
  have hread : Gives t o.asRead (.value (.str z)) :=
    .text (hz ▸ DateTime.ofIso?_spelled_offset hx hy)
  by_cases hlong : o.micros.natAbs < 1000000
  · have hzero : KeepsInstant (.value (.str z)) t.instant := by
      simpa [UtcOffset.asRead, hlong, UtcOffset.zero] using hread.keepsInstant
    constructor
    · intro h
      have hsame := h.eq hzero
      omega
    · intro h
      rw [h.resolve_right (by omega), Int.sub_zero]
      exact hzero
  · refine iff_of_true ?_ (by omega)
    simpa [UtcOffset.asRead, hlong] using hread.keepsInstant

end GivenTime

theorem Archive.visible_eq_by_instant (a : Archive) (now : DateTime) (language : Text) :
    a.visible now language false =
      (a.articles.filter fun x => decide (x.createdAt.instant ≤ now.instant)).map
        (·.localized language) := by
  simp only [visible, Bool.false_or, DateTime.instant_le_iff_rank_le]

theorem Article.newerOrSame_eq_by_instant (a b : Article) :
    a.newerOrSame b = decide (b.createdAt.instant < a.createdAt.instant ∨
      a.createdAt.instant = b.createdAt.instant ∧ b.id ≤ a.id) := by
  have heq : a.createdAt.instant = b.createdAt.instant ↔ a.createdAt.rank = b.createdAt.rank := by
    rw [Int.le_antisymm_iff, Nat.le_antisymm_iff, DateTime.instant_le_iff_rank_le,
      DateTime.instant_le_iff_rank_le]
  rw [Bool.eq_iff_iff]
  simp [newerOrSame, DateTime.instant_lt_iff_rank_lt, heq]

theorem SortKey.le_date_eq_by_instant (terms : List Text) (a b : Article) :
    (date.rankKey terms a).le (date.rankKey terms b) =
      decide (a.createdAt.instant ≤ b.createdAt.instant) := by
  simp [rankKey, RankKey.le, DateTime.instant_le_iff_rank_le]

namespace Draft

variable {g : GivenTime} {t : DateTime} {o : UtcOffset}

/-- A local time with an offset becomes the time at its instant, which is the offset before that of
the same time without one, and is refused if the calendar has no such time: always where the two are
given, and where a text spells them, exactly if the offset is not between zero and a second. Such an
offset is lost in whatever is read from a text. Times without an offset are kept and days begin at
midnight. Instants decide what is equal, what stands first, and what is of the future. -/
theorem normalCreatedAt_keeps_instant_iff (h : g.Means t o) :
    (g.KeepsInstant (t.instant - o.micros) ↔
      ((∃ z, g = .value (.str z)) → o.micros = 0 ∨ 1000000 ≤ o.micros.natAbs)) ∧
    (∀ (g : GivenTime) t o, g.Gives t o → g.KeepsInstant (t.instant - o.micros)) ∧
    (∀ d, normalCreatedAt (.day d) = .ok (.midnight d)) ∧
    (∀ t, normalCreatedAt (.time t none) = .ok t) ∧
    (∀ (t : DateTime) x, t.IsSpelled (strip x) → normalCreatedAt (.value (.str x)) = .ok t) ∧
    (∀ t u : DateTime, t.instant = u.instant → t = u) ∧
    (∀ a b : Article, a.newerOrSame b = decide (b.createdAt.instant < a.createdAt.instant ∨
      a.createdAt.instant = b.createdAt.instant ∧ b.id ≤ a.id)) ∧
    (∀ terms a b, (SortKey.date.rankKey terms a).le (SortKey.date.rankKey terms b) =
      decide (a.createdAt.instant ≤ b.createdAt.instant)) ∧
    ∀ (a : Archive) now language, a.visible now language false =
      (a.articles.filter fun x => decide (x.createdAt.instant ≤ now.instant)).map
        (·.localized language) := by
  refine ⟨?_, fun g t o hg => hg.keepsInstant, fun d => rfl, fun t => rfl, fun t x hx => ?_,
    fun t u => DateTime.instant_injective, Article.newerOrSame_eq_by_instant,
    SortKey.le_date_eq_by_instant, Archive.visible_eq_by_instant⟩
  · cases h with
    | time => simpa using GivenTime.Gives.time.keepsInstant
    | text hx hy hz => simpa using GivenTime.keepsInstant_text_iff hx hy hz
  · exact normalCreatedAt_of_text (DateTime.ofIso?_spelled hx)

def firstOfMarch : Date :=
  ⟨2024, 3, 1, by decide, by decide, by decide⟩

def leapDay : Date :=
  ⟨2024, 2, 29, by decide, by decide, by decide⟩

def halfSecond : UtcOffset :=
  ⟨500000, by decide, by decide⟩

/-- An offset of half a second takes midnight back to the leap day, unless it is spelled out. -/
theorem normalCreatedAt_keeps_instant_iff_half_second :
    (∃ u, normalCreatedAt (.time (.midnight firstOfMarch) (some halfSecond)) = .ok u ∧
      u.date = leapDay) ∧
    ¬ GivenTime.KeepsInstant (.value (.str "2024-03-01T00:00:00+00:00:00.500000".toList))
      ((DateTime.midnight firstOfMarch).instant - halfSecond.micros) := by
  constructor
  · have hmeans : GivenTime.Means (.midnight firstOfMarch) halfSecond _ := .time
    obtain ⟨hkeeps, -, -, -, -, hequal, -⟩ := normalCreatedAt_keeps_instant_iff hmeans
    obtain ⟨u, hu, hinstant⟩ := (hkeeps.mpr (by simp)).inside (by decide)
    obtain rfl := hequal u ⟨leapDay, 86399500000, by decide⟩ (hinstant.trans (by decide))
    exact ⟨_, hu, rfl⟩
  · have hmeans : GivenTime.Means (.midnight firstOfMarch) halfSecond
        (.value (.str "2024-03-01T00:00:00+00:00:00.500000".toList)) :=
      .text ⟨"2024-03-01".toList, 'T', true, .second, .inl rfl, by decide, rfl⟩
        (.inr ⟨true, .micro, by decide, rfl⟩) (by decide)
    intro hkeeps
    have hlong := (normalCreatedAt_keeps_instant_iff hmeans).1.mp hkeeps ⟨_, rfl⟩
    exact absurd hlong (by decide)

end Draft

end ArticleArchive
