import ArticleArchive.Proofs.Calendar.Ends
import ArticleArchive.Proofs.Text.Numerals

namespace ArticleArchive

open Text

def Text.IsDay (t : Text) : Prop :=
  ∃ d : Date, t = d.text

namespace Date

theorem parts_lt (d : Date) : d.year < 10000 ∧ d.month < 100 ∧ d.day < 100 := by
  have hy := d.year_range
  have hm := d.month_range
  have hd := d.day_range
  have hdays := daysInMonth_range d.year d.month
  omega

theorem ofText?_text (d : Date) : ofText? d.text = some d := by
  have ⟨hy, hm, hd⟩ := d.parts_lt
  obtain ⟨y1, y2, y3, y4, hyear, hyear'⟩ := exists_paddedDigits_four hy
  obtain ⟨m1, m2, hmonth, hmonth'⟩ := exists_paddedDigits_two hm
  obtain ⟨d1, d2, hday, hday'⟩ := exists_paddedDigits_two hd
  have htext : d.text = [y1, y2, y3, y4, '-', m1, m2, '-', d1, d2] := by
    rw [text, hyear, hmonth, hday]
    rfl
  rw [htext, ofText?, hyear', hmonth', hday']
  exact ofFields?_eq_some_iff.mpr ⟨rfl, rfl, rfl⟩

theorem length_text (d : Date) : d.text.length = 10 := by
  have ⟨hy, hm, hd⟩ := d.parts_lt
  have hyear := length_paddedDigits 4 d.year (by decide) hy
  have hmonth := length_paddedDigits 2 d.month (by decide) hm
  have hday := length_paddedDigits 2 d.day (by decide) hd
  simp only [text, List.length_append, List.length_cons, hyear, hmonth, hday]

theorem text_of_ofText? {t : Text} {d : Date} (h : ofText? t = some d) : t = d.text := by
  unfold ofText? at h
  split at h
  · rename_i y1 y2 y3 y4 m1 m2 d1 d2
    obtain ⟨year, hyear, h⟩ := Option.bind_eq_some_iff.mp h
    obtain ⟨month, hmonth, h⟩ := Option.bind_eq_some_iff.mp h
    obtain ⟨day, hday, h⟩ := Option.bind_eq_some_iff.mp h
    obtain ⟨rfl, rfl, rfl⟩ := ofFields?_eq_some_iff.mp h
    have hy := paddedDigits_of_asciiNumber? hyear (by simp)
    have hm := paddedDigits_of_asciiNumber? hmonth (by simp)
    have hd := paddedDigits_of_asciiNumber? hday (by simp)
    simp only [List.length_cons, List.length_nil] at hy hm hd
    rw [text, hy, hm, hd]
    rfl
  · simp at h

theorem ofText?_eq_some_iff {t : Text} {d : Date} : ofText? t = some d ↔ t = d.text :=
  ⟨text_of_ofText?, fun h => h ▸ d.ofText?_text⟩

theorem exists_ofText?_iff {t : Text} : (∃ d, ofText? t = some d) ↔ t.IsDay :=
  exists_congr fun _ => ofText?_eq_some_iff

instance (t : Text) : Decidable t.IsDay :=
  decidable_of_iff ((ofText? t).isSome = true)
    (Option.isSome_iff_exists.trans exists_ofText?_iff)

theorem ofText?_eq_none_iff {t : Text} : ofText? t = none ↔ ¬ t.IsDay := by
  rw [← exists_ofText?_iff, ← Option.isSome_iff_exists]
  simp

theorem text_injective {d e : Date} (h : d.text = e.text) : d = e :=
  Option.some.inj (d.ofText?_text ▸ ofText?_eq_some_iff.mpr h)

def Before (d e : Date) : Prop :=
  d.year < e.year ∨ d.year = e.year ∧ (d.month < e.month ∨ d.month = e.month ∧ d.day < e.day)

theorem rank_lt_iff {d e : Date} : d.rank < e.rank ↔ d.Before e := by
  have hd := d.parts_lt
  have he := e.parts_lt
  simp only [rank, Before]
  omega

end Date

end ArticleArchive
