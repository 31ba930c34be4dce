import Mathlib.Data.List.TakeWhile
import ArticleArchive.Calendar.Timestamp
import ArticleArchive.Proofs.Calendar.Days

namespace ArticleArchive

open Text

namespace DateTime

theorem parts_lt (t : DateTime) :
    t.hour < 24 ∧ t.minute < 60 ∧ t.second < 60 ∧ t.micro < 1000000 := by
  have h := t.micros_lt
  simp only [dayMicros] at h
  simp only [hour, minute, second, micro]
  omega

theorem ofFields?_parts (t : DateTime) :
    ofFields? t.date t.hour t.minute t.second t.micro = some t := by
  have hparts : ((t.hour * 60 + t.minute) * 60 + t.second) * 1000000 + t.micro = t.micros := by
    simp only [hour, minute, second, micro]
    omega
  rw [ofFields?, if_pos t.parts_lt, hparts]
  exact ofMicros?_eq_some t.micros_lt

theorem readDecimals?_paddedDigits {n : Nat} (h : n < 1000000) :
    readDecimals? (paddedDigits 6 n) = some (n, []) := by
  have hl : (paddedDigits 6 n).length = 6 := length_paddedDigits 6 n (by decide) h
  have hne : paddedDigits 6 n ≠ [] := List.ne_nil_of_length_pos (by omega)
  have hdigits : (paddedDigits 6 n).takeWhile Char.isDigit = paddedDigits 6 n :=
    List.takeWhile_eq_self_iff.mpr fun c hc => isDigit_of_mem_paddedDigits hc
  have htake : (paddedDigits 6 n).take 6 = paddedDigits 6 n := List.take_of_length_le (by omega)
  have hdrop : (paddedDigits 6 n).drop 6 = [] := List.drop_of_length_le (by omega)
  simp [readDecimals?, hdigits, htake, hdrop, hl, hne, asciiNumber?_paddedDigits]

theorem readSeconds?_written {second micro : Nat} (hs : second < 60) (hm : micro < 1000000) :
    readSeconds? (':' :: (paddedDigits 2 second ++
      if micro = 0 then [] else '.' :: paddedDigits 6 micro)) = some (second, micro, []) := by
  obtain ⟨s1, s2, hsecond, hsecond'⟩ := exists_paddedDigits_two (show second < 100 by omega)
  rw [hsecond]
  by_cases hz : micro = 0
  · subst hz
    simp [readSeconds?, hsecond']
  · simp [readSeconds?, hsecond', hz, isDecimalMark, readDecimals?_paddedDigits hm]

theorem ofTimestamp?_text (t : DateTime) : ofTimestamp? t.text = some (t, none) := by
  have ⟨hhour, hminute, hsecond, hmicro⟩ := t.parts_lt
  obtain ⟨h1, h2, hh, hh'⟩ := exists_paddedDigits_two (show t.hour < 100 by omega)
  obtain ⟨m1, m2, hm, hm'⟩ := exists_paddedDigits_two (show t.minute < 100 by omega)
  -- the day takes the first ten characters, so that the clock time starts at its mark
  have hdate := t.date.length_text
  have htake : t.text.take 10 = t.date.text := List.take_left' hdate
  have hdrop : t.text.drop 10 = 'T' :: h1 :: h2 :: ':' :: m1 :: m2 ::
      ':' :: (paddedDigits 2 t.second ++
        if t.micro = 0 then [] else '.' :: paddedDigits 6 t.micro) := by
    rw [text, List.drop_left' hdate, hh, hm]
    rfl
  rw [ofTimestamp?, hdrop]
  simp [htake, Date.ofText?_text, readSeconds?_written hsecond hmicro, hh', hm', ofFields?_parts,
    separators, UtcOffset.ofTimestampEnd?]

end DateTime

end ArticleArchive
