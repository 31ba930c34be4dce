import ArticleArchive.Calendar.DateTime

namespace ArticleArchive

theorem daysInMonth_range (year month : Nat) :
    28 ≤ daysInMonth year month ∧ daysInMonth year month ≤ 31 := by
  unfold daysInMonth
  split
  · split <;> omega
  · split <;> omega

namespace Date

def first : Date :=
  ⟨1, 1, 1, by decide, by decide, by decide⟩

def last : Date :=
  ⟨9999, 12, 31, by decide, by decide, by decide⟩

theorem ofFields?_eq_some_iff {year month day : Nat} {d : Date} :
    ofFields? year month day = some d ↔ d.year = year ∧ d.month = month ∧ d.day = day := by
  constructor
  · intro h
    unfold ofFields? at h
    split at h
    · split at h
      · split at h
        · obtain rfl := Option.some.inj h
          exact ⟨rfl, rfl, rfl⟩
        · simp at h
      · simp at h
    · simp at h
  · rintro ⟨rfl, rfl, rfl⟩
    simp [ofFields?, d.year_range, d.month_range, d.day_range]

theorem ofFields?_eq_none_iff {year month day : Nat} :
    ofFields? year month day = none ↔
      ¬ ((1 ≤ year ∧ year ≤ 9999) ∧ (1 ≤ month ∧ month ≤ 12) ∧
        1 ≤ day ∧ day ≤ daysInMonth year month) := by
  unfold ofFields?
  split
  · rename_i hy
    split
    · rename_i hm
      split
      · rename_i hd
        exact iff_of_false nofun fun h => h ⟨hy, hm, hd⟩
      · rename_i hd
        exact iff_of_true rfl fun h => hd h.2.2
    · rename_i hm
      exact iff_of_true rfl fun h => hm h.2.1
  · rename_i hy
    exact iff_of_true rfl fun h => hy h.1

theorem previous?_eq_none_iff {d : Date} : d.previous? = none ↔ d = first := by
  obtain ⟨year, month, day, hy, hm, hd⟩ := d
  unfold previous?
  simp only [first, mk.injEq]
  split
  · rw [ofFields?_eq_none_iff]
    omega
  · split
    · have := daysInMonth_range year (month - 1)
      rw [ofFields?_eq_none_iff]
      omega
    -- the first of January, whose year is all that counts
    · have hdec : daysInMonth (year - 1) 12 = 31 := rfl
      rw [ofFields?_eq_none_iff, hdec]
      omega

theorem next?_eq_none_iff {d : Date} : d.next? = none ↔ d = last := by
  obtain ⟨year, month, day, hy, hm, hd⟩ := d
  have hdec : daysInMonth year 12 = 31 := rfl
  unfold next?
  simp only [last, mk.injEq]
  split
  · rename_i hlt
    rw [ofFields?_eq_none_iff]
    refine iff_of_false (by omega) ?_
    rintro ⟨-, rfl, rfl⟩
    rw [hdec] at hlt
    omega
  · split
    · have := daysInMonth_range year (month + 1)
      rw [ofFields?_eq_none_iff]
      omega
    · obtain rfl : month = 12 := by omega
      have hjan : daysInMonth (year + 1) 1 = 31 := rfl
      rw [ofFields?_eq_none_iff, hjan]
      rw [hdec] at hd
      omega

end Date

namespace DateTime

theorem ofMicros?_eq_some {d : Date} {micros : Nat} (h : micros < dayMicros) :
    ofMicros? d micros = some ⟨d, micros, h⟩ :=
  dif_pos h

theorem bind_ofMicros?_eq_none_iff {d : Option Date} {micros : Nat} (h : micros < dayMicros) :
    (d.bind fun d => ofMicros? d micros) = none ↔ d = none := by
  cases d with
  | none => simp
  | some d => simp [ofMicros?_eq_some h]

/-- The shift to universal time leaves the calendar at its beginning or at its end. -/
def LeavesCalendar (t : DateTime) (offset : UtcOffset) : Prop :=
  (t.date = Date.first ∧ (t.micros : Int) < offset.micros) ∨
    (t.date = Date.last ∧ dayMicros ≤ (t.micros : Int) - offset.micros)

theorem toUtc?_eq_none_iff {t : DateTime} {offset : UtcOffset} :
    t.toUtc? offset = none ↔ t.LeavesCalendar offset := by
  have hmicros := t.micros_lt
  have habove := offset.above
  have hbelow := offset.below
  unfold toUtc? LeavesCalendar
  dsimp only
  split
  -- an offset of less than a day moves a time by one day at most
  · rename_i hneg
    have hbegin : (t.micros : Int) < offset.micros := by omega
    have hend : ¬ dayMicros ≤ (t.micros : Int) - offset.micros := by omega
    rw [bind_ofMicros?_eq_none_iff (by omega), Date.previous?_eq_none_iff]
    simp [hbegin, hend]
  · rename_i hneg
    have hbegin : ¬ (t.micros : Int) < offset.micros := by omega
    split
    · have hend : ¬ dayMicros ≤ (t.micros : Int) - offset.micros := by omega
      rw [ofMicros?_eq_some (by omega)]
      simp [hbegin, hend]
    · have hend : dayMicros ≤ (t.micros : Int) - offset.micros := by omega
      rw [bind_ofMicros?_eq_none_iff (by omega), Date.next?_eq_none_iff]
      simp [hbegin, hend]

end DateTime

end ArticleArchive
