import Mathlib.Algebra.BigOperators.Group.List.Basic
import ArticleArchive.Proofs.Calendar.Days

namespace ArticleArchive.Date

def yearLength (year : Nat) : Nat :=
  if isLeapYear year then 366 else 365

/-- A leap year adds a day to the quotient by 4, which the one by 100 takes and the one by 400 gives
back. -/
theorem daysBeforeYear_succ {year : Nat} (h : 1 ≤ year) :
    daysBeforeYear (year + 1) = daysBeforeYear year + yearLength year := by
  obtain ⟨y, rfl⟩ := Nat.exists_eq_add_of_le' h
  have hle : y / 100 ≤ y / 4 := Nat.div_le_div_left (by decide) (by decide)
  simp only [daysBeforeYear, yearLength, isLeapYear, Nat.add_sub_cancel, Nat.succ_div, ne_eq,
    Bool.and_eq_true, Bool.or_eq_true, beq_iff_eq, bne_iff_ne, ← Nat.dvd_iff_mod_eq_zero]
  by_cases h400 : 400 ∣ y + 1
  · have h100 : 100 ∣ y + 1 := Dvd.dvd.trans (by decide) h400
    have h4 : 4 ∣ y + 1 := Dvd.dvd.trans (by decide) h100
    simp only [h4, h100, h400, if_true, true_and, or_true]
    omega
  · by_cases h100 : 100 ∣ y + 1
    · have h4 : 4 ∣ y + 1 := Dvd.dvd.trans (by decide) h100
      simp only [h4, h100, h400, if_true, if_false, not_true, or_self, and_false]
      omega
    · by_cases h4 : 4 ∣ y + 1
      · simp only [h4, h100, h400, if_true, if_false, not_false_iff, true_or, and_self]
        omega
      · simp only [h4, h100, h400, if_false, false_and]
        omega

theorem daysBeforeMonth_succ (year : Nat) {month : Nat} (h : 1 ≤ month) :
    daysBeforeMonth year (month + 1) = daysBeforeMonth year month + daysInMonth year month := by
  obtain ⟨m, rfl⟩ := Nat.exists_eq_add_of_le' h
  have hsum : ∀ n, daysBeforeMonth year (n + 1) =
      ((List.range n).map fun k => daysInMonth year (k + 1)).sum := by
    intro n
    rw [daysBeforeMonth, List.sum, List.foldr_map]
    rfl
  rw [hsum, hsum, List.range_succ]
  simp

theorem daysBeforeMonth_thirteen (year : Nat) : daysBeforeMonth year 13 = yearLength year := by
  cases h : isLeapYear year <;>
    simp [daysBeforeMonth, daysInMonth, yearLength, h, List.range_succ]

theorem daysBeforeMonth_december (year : Nat) :
    daysBeforeMonth year 12 + daysInMonth year 12 = yearLength year := by
  rw [← daysBeforeMonth_succ year (by decide), daysBeforeMonth_thirteen]

variable {d e : Date}

theorem dayNumber_next? (h : d.next? = some e) : e.dayNumber = d.dayNumber + 1 := by
  obtain ⟨hy, -⟩ := d.year_range
  obtain ⟨hm, hm'⟩ := d.month_range
  obtain ⟨-, hd⟩ := d.day_range
  unfold next? at h
  -- the next day is in the same month, the first of the next month or of the next year
  split at h
  · obtain ⟨hyear, hmonth, hday⟩ := ofFields?_eq_some_iff.mp h
    rw [dayNumber, dayNumber, hyear, hmonth, hday]
    omega
  · rename_i hlast
    split at h
    · obtain ⟨hyear, hmonth, hday⟩ := ofFields?_eq_some_iff.mp h
      rw [dayNumber, dayNumber, hyear, hmonth, hday, daysBeforeMonth_succ d.year hm]
      omega
    · obtain ⟨hyear, hmonth, hday⟩ := ofFields?_eq_some_iff.mp h
      have hdec : d.month = 12 := by omega
      have hlength := daysBeforeMonth_december d.year
      have hjan : daysBeforeMonth (d.year + 1) 1 = 0 := rfl
      rw [dayNumber, dayNumber, hyear, hmonth, hday, daysBeforeYear_succ hy, hjan, hdec]
      rw [hdec] at hd hlast
      omega

theorem next?_of_previous? (h : d.previous? = some e) : e.next? = some d := by
  obtain ⟨hm, hm'⟩ := d.month_range
  obtain ⟨hd, hd'⟩ := d.day_range
  obtain ⟨hy, -⟩ := d.year_range
  unfold previous? at h
  split at h
  · obtain ⟨hyear, hmonth, hday⟩ := ofFields?_eq_some_iff.mp h
    rw [next?, hyear, hmonth, hday, if_pos (by omega)]
    exact ofFields?_eq_some_iff.mpr (by omega)
  · split at h
    · obtain ⟨hyear, hmonth, hday⟩ := ofFields?_eq_some_iff.mp h
      rw [next?, hyear, hmonth, hday, if_neg (by omega), if_pos (by omega)]
      exact ofFields?_eq_some_iff.mpr (by omega)
    · obtain ⟨hyear, hmonth, hday⟩ := ofFields?_eq_some_iff.mp h
      have hdec : daysInMonth (d.year - 1) 12 = 31 := rfl
      rw [next?, hyear, hmonth, hday, hdec, if_neg (by omega), if_neg (by omega)]
      exact ofFields?_eq_some_iff.mpr (by omega)

theorem dayNumber_previous? (h : d.previous? = some e) : d.dayNumber = e.dayNumber + 1 :=
  dayNumber_next? (next?_of_previous? h)

theorem daysBeforeYear_mono {y z : Nat} (hy : 1 ≤ y) (h : y ≤ z) :
    daysBeforeYear y ≤ daysBeforeYear z := by
  induction h with
  | refl => exact Nat.le_refl _
  | step hle ih =>
    rw [daysBeforeYear_succ (hy.trans hle)]
    omega

theorem daysBeforeMonth_mono (year : Nat) {m n : Nat} (hm : 1 ≤ m) (h : m ≤ n) :
    daysBeforeMonth year m ≤ daysBeforeMonth year n := by
  induction h with
  | refl => exact Nat.le_refl _
  | step hle ih =>
    rw [daysBeforeMonth_succ year (hm.trans hle)]
    omega

theorem daysBeforeMonth_add_day_le (d : Date) :
    daysBeforeMonth d.year d.month + d.day ≤ daysBeforeMonth d.year (d.month + 1) := by
  rw [daysBeforeMonth_succ d.year d.month_range.1]
  exact Nat.add_le_add_left d.day_range.2 _

theorem dayNumber_lt_of_before (h : d.Before e) : d.dayNumber < e.dayNumber := by
  have hmonth := d.daysBeforeMonth_add_day_le
  have hday := e.day_range.1
  unfold dayNumber
  rcases h with hlt | ⟨hyear, hlt | ⟨hmonths, hlt⟩⟩
  · have hlength : daysBeforeMonth d.year (d.month + 1) ≤ yearLength d.year := by
      rw [← daysBeforeMonth_thirteen]
      exact daysBeforeMonth_mono d.year (Nat.succ_pos _) (Nat.succ_le_succ d.month_range.2)
    have hyears : daysBeforeYear d.year + yearLength d.year ≤ daysBeforeYear e.year := by
      rw [← daysBeforeYear_succ d.year_range.1]
      exact daysBeforeYear_mono (Nat.succ_pos _) hlt
    omega
  · have hmonths : daysBeforeMonth d.year (d.month + 1) ≤ daysBeforeMonth d.year e.month :=
      daysBeforeMonth_mono d.year (Nat.succ_pos _) hlt
    rw [← hyear]
    omega
  · rw [← hyear, ← hmonths]
    omega

theorem before_trichotomy (d e : Date) : d.Before e ∨ d = e ∨ e.Before d := by
  obtain ⟨dy, dm, dd, _, _, _⟩ := d
  obtain ⟨ey, em, ed, _, _, _⟩ := e
  simp only [Before, mk.injEq]
  omega

theorem dayNumber_lt_iff : d.dayNumber < e.dayNumber ↔ d.Before e := by
  refine ⟨fun h => ?_, dayNumber_lt_of_before⟩
  rcases before_trichotomy d e with hbefore | rfl | hafter
  · exact hbefore
  · exact absurd h (Nat.lt_irrefl _)
  · exact absurd h (dayNumber_lt_of_before hafter).not_gt

theorem dayNumber_lt_iff_rank_lt : d.dayNumber < e.dayNumber ↔ d.rank < e.rank :=
  dayNumber_lt_iff.trans rank_lt_iff.symm

theorem dayNumber_injective (h : d.dayNumber = e.dayNumber) : d = e := by
  rcases before_trichotomy d e with hbefore | rfl | hafter
  · exact absurd h (dayNumber_lt_of_before hbefore).ne
  · rfl
  · exact absurd h (dayNumber_lt_of_before hafter).ne'

theorem first_le_dayNumber (d : Date) : first.dayNumber ≤ d.dayNumber := by
  have hfirst : first.dayNumber = 1 := rfl
  have hday := d.day_range.1
  rw [hfirst, dayNumber]
  omega

theorem dayNumber_le_last (d : Date) : d.dayNumber ≤ last.dayNumber := by
  rw [← Nat.not_lt, dayNumber_lt_iff]
  have ⟨hm, hd⟩ : d.month ≤ 12 ∧ (d.month = 12 → d.day ≤ 31) :=
    ⟨d.month_range.2, fun h => d.day_range.2.trans (by rw [h]; rfl)⟩
  have hy := d.year_range.2
  simp only [Before, last]
  omega

end ArticleArchive.Date
