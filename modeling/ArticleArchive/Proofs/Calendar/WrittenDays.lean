import Mathlib.Tactic.IntervalCases
import ArticleArchive.Number.Binary64
import ArticleArchive.Proofs.Calendar.Days

namespace ArticleArchive

namespace Text

/-- The text consists of `width` of the digits 0 to 9, which spell `n`. -/
structure IsNumeral (width n : Nat) (t : Text) : Prop where
  length : t.length = width
  digits : ∀ c ∈ t, c.isDigit = true
  value : Nat.ofDigitChars 10 t 0 = n

variable {s t u v : Text} {width n : Nat}

theorem isNumeral_paddedDigits (hw : 0 < width) (h : n < 10 ^ width) :
    IsNumeral width n (paddedDigits width n) where
  length := length_paddedDigits width n hw h
  digits _ hc := isDigit_of_mem_paddedDigits hc
  value := by rw [← asciiValue_eq_ofDigitChars, asciiValue_paddedDigits]

theorem IsNumeral.unique (hs : IsNumeral width n s) (ht : IsNumeral width n t) : s = t := by
  refine eq_of_asciiValue_eq hs.digits ht.digits (hs.length.trans ht.length.symm) ?_
  rw [asciiValue_eq_ofDigitChars, asciiValue_eq_ofDigitChars, hs.value, ht.value]

theorem append_lt_append_iff (h : s.length = t.length) :
    s ++ u < t ++ v ↔ s < t ∨ s = t ∧ u < v := by
  induction s generalizing t with
  | nil =>
    obtain rfl := List.length_eq_zero_iff.mp h.symm
    simp
  | cons c s ih =>
    obtain ⟨d, t, rfl⟩ := List.exists_cons_of_length_eq_add_one h.symm
    rw [List.cons_append, List.cons_append, List.cons_lt_cons_iff, List.cons_lt_cons_iff,
      ih (Nat.succ.inj h), List.cons.injEq]
    tauto

theorem lt_iff_asciiValue_lt (hs : ∀ c ∈ s, c.isDigit = true) (ht : ∀ c ∈ t, c.isDigit = true)
    (hl : s.length = t.length) : s < t ↔ asciiValue s < asciiValue t := by
  induction s using List.reverseRecOn generalizing t with
  | nil =>
    obtain rfl := List.length_eq_zero_iff.mp hl.symm
    simp
  | append_singleton s c ih =>
    rcases List.eq_nil_or_concat t with rfl | ⟨t, d, rfl⟩
    · simp at hl
    · rw [List.concat_eq_append] at *
      have hs' : ∀ a ∈ s, a.isDigit = true := fun a ha => hs a (List.mem_append_left _ ha)
      have ht' : ∀ a ∈ t, a.isDigit = true := fun a ha => ht a (List.mem_append_left _ ha)
      have hl' : s.length = t.length := by simpa using hl
      have hc := toNat_of_isDigit (hs c (by simp))
      have hd := toNat_of_isDigit (ht d (by simp))
      -- by induction from the end: the last digit decides only between equal beginnings
      have heq : s = t ↔ asciiValue s = asciiValue t :=
        ⟨fun h => h ▸ rfl, eq_of_asciiValue_eq hs' ht' hl'⟩
      have hlast : [c] < [d] ↔ c.toNat < d.toNat := by
        rw [List.cons_lt_cons_iff]
        simp [Char.lt_def, UInt32.lt_iff_toNat_lt]
      rw [append_lt_append_iff hl', ih hs' ht' hl', heq, hlast, asciiValue_concat,
        asciiValue_concat]
      omega

theorem length_paddedDigits_eq {m n : Nat} (hw : 0 < width) (hm : m < 10 ^ width)
    (hn : n < 10 ^ width) : (paddedDigits width m).length = (paddedDigits width n).length :=
  (length_paddedDigits width m hw hm).trans (length_paddedDigits width n hw hn).symm

theorem paddedDigits_lt_iff {m n : Nat} (hw : 0 < width) (hm : m < 10 ^ width)
    (hn : n < 10 ^ width) : paddedDigits width m < paddedDigits width n ↔ m < n := by
  rw [lt_iff_asciiValue_lt (fun _ => isDigit_of_mem_paddedDigits)
    (fun _ => isDigit_of_mem_paddedDigits) (length_paddedDigits_eq hw hm hn),
    asciiValue_paddedDigits, asciiValue_paddedDigits]

theorem paddedDigits_inj {m n : Nat} : paddedDigits width m = paddedDigits width n ↔ m = n := by
  refine ⟨fun h => ?_, fun h => h ▸ rfl⟩
  rw [← asciiValue_paddedDigits width m, h, asciiValue_paddedDigits]

/-- The text has the form `YYYY-MM-DD`, and its digits spell these three numbers. -/
def SpellsDay (t : Text) (year month day : Nat) : Prop :=
  ∃ y m d : Text, t = y ++ '-' :: (m ++ '-' :: d) ∧
    IsNumeral 4 year y ∧ IsNumeral 2 month m ∧ IsNumeral 2 day d

end Text

open Text

/-- The lengths of the months from January on. Every fourth year has a day more in February, but of
the years that end a century only every fourth. -/
def monthLengths (year : Nat) : List Nat :=
  [31, if 4 ∣ year ∧ (100 ∣ year → 400 ∣ year) then 29 else 28, 31, 30, 31, 30,
    31, 31, 30, 31, 30, 31]

theorem isLeapYear_iff {year : Nat} :
    isLeapYear year = true ↔ 4 ∣ year ∧ (100 ∣ year → 400 ∣ year) := by
  simp only [isLeapYear, Bool.and_eq_true, Bool.or_eq_true, beq_iff_eq, bne_iff_ne, ne_eq,
    ← Nat.dvd_iff_mod_eq_zero]
  tauto

theorem monthLengths_getElem? (year : Nat) {month : Nat} (h : 1 ≤ month ∧ month ≤ 12) :
    (monthLengths year)[month - 1]? = some (daysInMonth year month) := by
  by_cases hfebruary : month = 2
  · subst hfebruary
    simp only [daysInMonth, isLeapYear_iff, if_true]
    rfl
  · rw [daysInMonth, if_neg hfebruary]
    obtain ⟨hm, hm'⟩ := h
    interval_cases month <;> simp [monthLengths] at hfebruary ⊢

namespace Date

/-- The three numbers are a day of the Gregorian calendar, reckoned back to the year 1. -/
structure IsGregorian (year month day : Nat) : Prop where
  year_range : 1 ≤ year ∧ year ≤ 9999
  month_pos : 1 ≤ month
  day_range : 1 ≤ day ∧ ∃ n, (monthLengths year)[month - 1]? = some n ∧ day ≤ n

theorem exists_iff_isGregorian {year month day : Nat} :
    (∃ d : Date, d.year = year ∧ d.month = month ∧ d.day = day) ↔ IsGregorian year month day := by
  constructor
  · rintro ⟨d, rfl, rfl, rfl⟩
    exact ⟨d.year_range, d.month_range.1, d.day_range.1, _,
      monthLengths_getElem? d.year d.month_range, d.day_range.2⟩
  · rintro ⟨hy, hm, hd, n, hn, hle⟩
    have hindex : month - 1 < 12 := (List.getElem?_eq_some_iff.mp hn).1
    have hmonth : 1 ≤ month ∧ month ≤ 12 := by omega
    rw [monthLengths_getElem? year hmonth] at hn
    obtain rfl := Option.some.inj hn
    exact ⟨⟨year, month, day, hy, hmonth, hd, hle⟩, rfl, rfl, rfl⟩

theorem spellsDay_text (d : Date) : d.text.SpellsDay d.year d.month d.day := by
  have ⟨hy, hm, hd⟩ := d.parts_lt
  exact ⟨_, _, _, rfl, isNumeral_paddedDigits (by decide) hy, isNumeral_paddedDigits (by decide) hm,
    isNumeral_paddedDigits (by decide) hd⟩

theorem eq_text_iff_spellsDay {t : Text} {d : Date} :
    t = d.text ↔ t.SpellsDay d.year d.month d.day := by
  constructor
  · rintro rfl
    exact d.spellsDay_text
  · rintro ⟨y, m, x, rfl, hy, hm, hx⟩
    obtain ⟨y', m', x', htext, hy', hm', hx'⟩ := d.spellsDay_text
    rw [htext, hy.unique hy', hm.unique hm', hx.unique hx']

/-- Every part of a day is written in its full width, so the first part that differs decides. -/
theorem text_lt_text_iff {d e : Date} : d.text < e.text ↔ d.Before e := by
  have ⟨hdy, hdm, hdd⟩ := d.parts_lt
  have ⟨hey, hem, hed⟩ := e.parts_lt
  have hcons {s t : Text} : '-' :: s < '-' :: t ↔ s < t := by
    rw [List.cons_lt_cons_iff]
    simp
  rw [text, text, append_lt_append_iff (length_paddedDigits_eq (by decide) hdy hey), hcons,
    append_lt_append_iff (length_paddedDigits_eq (by decide) hdm hem), hcons,
    paddedDigits_lt_iff (by decide) hdy hey, paddedDigits_lt_iff (by decide) hdm hem,
    paddedDigits_lt_iff (by decide) hdd hed, paddedDigits_inj, paddedDigits_inj]
  rfl

/-- Just the written forms of the days of the Gregorian calendar in the years 1 to 9999 are taken
for days, each for its own; and two of them are in alphabetical order just as the days are in the
order of the calendar, which is that of their ranks. -/
theorem ofText?_reads_written_days :
    (∀ t d, ofText? t = some d ↔ t = d.text) ∧
    (∀ t d, ofText? t = some d ↔ t.SpellsDay d.year d.month d.day) ∧
    (∀ year month day, (∃ d : Date, d.year = year ∧ d.month = month ∧ d.day = day) ↔
      IsGregorian year month day) ∧
    ∀ t u d e, ofText? t = some d → ofText? u = some e →
      (t < u ↔ d.Before e) ∧ (t < u ↔ d.rank < e.rank) ∧ (t = u ↔ d = e) := by
  refine ⟨fun t d => ofText?_eq_some_iff, fun t d => ofText?_eq_some_iff.trans
    eq_text_iff_spellsDay, fun _ _ _ => exists_iff_isGregorian, fun t u d e ht hu => ?_⟩
  obtain rfl := text_of_ofText? ht
  obtain rfl := text_of_ofText? hu
  exact ⟨text_lt_text_iff, text_lt_text_iff.trans rank_lt_iff.symm, text_injective,
    fun h => h ▸ rfl⟩

/-- The year 2000 has a leap day, and the text of the day after follows; the year 1900 has none. -/
theorem ofText?_reads_leap_day :
    let d : Date := ⟨2000, 2, 29, by decide, by decide, by decide⟩
    let e : Date := ⟨2000, 3, 1, by decide, by decide, by decide⟩
    ofText? "2000-02-29".toList = some d ∧ ofText? "2000-03-01".toList = some e ∧
      "2000-02-29".toList < "2000-03-01".toList ∧ ofText? "1900-02-29".toList = none := by
  intro d e
  have hd : ofText? "2000-02-29".toList = some d := rfl
  have he : ofText? "2000-03-01".toList = some e := rfl
  obtain ⟨-, -, -, horder⟩ := ofText?_reads_written_days
  exact ⟨hd, he, (horder _ _ d e hd he).1.mpr (.inr ⟨rfl, .inl (by decide)⟩), rfl⟩

end Date

end ArticleArchive
