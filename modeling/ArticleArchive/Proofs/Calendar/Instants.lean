import ArticleArchive.Proofs.Calendar.DayNumbers

namespace ArticleArchive.DateTime

variable {t u : DateTime} {offset : UtcOffset}

theorem instant_lt_iff_rank_lt : t.instant < u.instant ↔ t.rank < u.rank := by
  have ht := t.micros_lt
  have hu := u.micros_lt
  have hbefore : t.date.dayNumber < u.date.dayNumber ↔ t.date.rank < u.date.rank :=
    Date.dayNumber_lt_iff_rank_lt
  have hafter : u.date.dayNumber < t.date.dayNumber ↔ u.date.rank < t.date.rank :=
    Date.dayNumber_lt_iff_rank_lt
  simp only [instant, rank, dayMicros] at *
  omega

theorem instant_le_iff_rank_le : t.instant ≤ u.instant ↔ t.rank ≤ u.rank := by
  rw [← Int.not_lt, instant_lt_iff_rank_lt, Nat.not_lt]

theorem instant_injective (h : t.instant = u.instant) : t = u := by
  have ht := t.micros_lt
  have hu := u.micros_lt
  simp only [instant, dayMicros] at h ht hu
  have hdate : t.date = u.date := Date.dayNumber_injective (by omega)
  have hmicros : t.micros = u.micros := by
    rw [hdate] at h
    omega
  cases t
  cases u
  simp_all

/-- An instant from the first midnight of the calendar to the end of its last day. -/
def InCalendar (i : Int) : Prop :=
  (midnight Date.first).instant ≤ i ∧ i < (midnight Date.last).instant + dayMicros

instance (i : Int) : Decidable (InCalendar i) :=
  inferInstanceAs (Decidable (_ ∧ _))

theorem inCalendar_instant (t : DateTime) : InCalendar t.instant := by
  have ht := t.micros_lt
  have hfirst := t.date.first_le_dayNumber
  have hlast := t.date.dayNumber_le_last
  simp only [InCalendar, instant, midnight, dayMicros] at *
  omega

theorem instant_of_bind_ofMicros? {d : Option Date} {micros : Nat}
    (h : (d.bind fun d => ofMicros? d micros) = some u) :
    ∃ e, d = some e ∧ u.instant = e.dayNumber * dayMicros + micros := by
  obtain ⟨e, he, hu⟩ := Option.bind_eq_some_iff.mp h
  unfold ofMicros? at hu
  split at hu
  · obtain rfl := Option.some.inj hu
    exact ⟨e, he, rfl⟩
  · simp at hu

theorem instant_of_toUtc? (h : t.toUtc? offset = some u) :
    u.instant = t.instant - offset.micros := by
  unfold toUtc? at h
  dsimp only at h
  -- the shift ends on the day before, on the same day or on the day after
  split at h
  · obtain ⟨e, he, hu⟩ := instant_of_bind_ofMicros? h
    have hday := Date.dayNumber_previous? he
    have habove := offset.above
    have hbelow := offset.below
    simp only [instant, dayMicros] at *
    omega
  · split at h
    · obtain ⟨e, he, hu⟩ := instant_of_bind_ofMicros? (d := some t.date) h
      obtain rfl := Option.some.inj he
      simp only [instant, dayMicros] at *
      omega
    · obtain ⟨e, he, hu⟩ := instant_of_bind_ofMicros? h
      have hday := Date.dayNumber_next? he
      simp only [instant, dayMicros] at *
      omega

theorem LeavesCalendar.not_inCalendar (h : t.LeavesCalendar offset) :
    ¬ InCalendar (t.instant - offset.micros) := by
  simp only [LeavesCalendar, InCalendar, instant, midnight] at *
  rintro ⟨hfirst, hlast⟩
  rcases h with ⟨hdate, hlt⟩ | ⟨hdate, hle⟩
  · rw [hdate] at hfirst
    omega
  · rw [hdate] at hlast
    omega

theorem toUtc?_eq_none_iff_not_inCalendar :
    t.toUtc? offset = none ↔ ¬ InCalendar (t.instant - offset.micros) := by
  refine ⟨fun h => (toUtc?_eq_none_iff.mp h).not_inCalendar, fun h => ?_⟩
  cases hutc : t.toUtc? offset with
  | none => rfl
  | some u => exact absurd (instant_of_toUtc? hutc ▸ inCalendar_instant u) h

end ArticleArchive.DateTime
