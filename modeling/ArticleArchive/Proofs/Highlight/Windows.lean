import ArticleArchive.Proofs.Highlight.Matches
import ArticleArchive.Proofs.Highlight.Sentences

namespace ArticleArchive

variable {t : Text} {c : Char}

namespace Span

variable {start stop : Nat}

theorem length_cut (start stop : Nat) (t : Text) :
    (cut ⟨start, stop⟩ t).length = min stop t.length - start := by
  rw [cut, List.length_drop, List.length_take]

theorem getElem?_cut {k : Nat} (h : start + k < stop) :
    (cut ⟨start, stop⟩ t)[k]? = t[start + k]? := by
  rw [cut, List.getElem?_drop, List.getElem?_take_of_lt h]

theorem mem_cut_iff :
    c ∈ cut ⟨start, stop⟩ t ↔ ∃ i, start ≤ i ∧ i < stop ∧ t[i]? = some c := by
  simp only [cut, List.mem_iff_getElem?, List.getElem?_drop, List.getElem?_take]
  constructor
  · rintro ⟨k, hk⟩
    split at hk
    · exact ⟨start + k, by omega, by assumption, hk⟩
    · simp at hk
  · rintro ⟨i, hstart, hstop, hi⟩
    obtain ⟨k, rfl⟩ := Nat.exists_eq_add_of_le hstart
    exact ⟨k, by rwa [if_pos hstop]⟩

theorem mem_cut_mono {start' stop' : Nat} (hstart : start' ≤ start) (hstop : stop ≤ stop')
    (h : c ∈ cut ⟨start, stop⟩ t) : c ∈ cut ⟨start', stop'⟩ t := by
  obtain ⟨i, hi, hi', hc⟩ := mem_cut_iff.mp h
  exact mem_cut_iff.mpr ⟨i, Nat.le_trans hstart hi, Nat.lt_of_lt_of_le hi' hstop, hc⟩

theorem take_cut (n : Nat) :
    (cut ⟨start, stop⟩ t).take n = cut ⟨start, min (start + n) stop⟩ t := by
  rw [cut, cut, List.take_drop, List.take_take]

theorem drop_cut (n : Nat) : (cut ⟨start, stop⟩ t).drop n = cut ⟨start + n, stop⟩ t := by
  rw [cut, cut, List.drop_drop]

end Span

theorem slice_eq_cut (t : Text) (i j : Nat) : slice t i j = Span.cut ⟨i, j⟩ t :=
  slice_natCast t i j

namespace Text

variable {start stop i : Nat}

theorem clampIndex_of_mem_cut (h : c ∈ Span.cut ⟨start, stop⟩ t) :
    clampIndex t.length start = start := by
  obtain ⟨i, hi, -, hc⟩ := Span.mem_cut_iff.mp h
  have hlen := (List.getElem?_eq_some_iff.mp hc).1
  rw [clampIndex_natCast, Nat.min_eq_left (by omega)]

theorem idxOf?_eq_some {u : Text} {k : Nat} (h : u.idxOf? c = some k) :
    u[k]? = some c ∧ c ∉ u.take k := by
  obtain ⟨hlt, hget, hearlier⟩ := List.idxOf?_eq_some_iff.mp h
  refine ⟨List.getElem?_eq_some_iff.mpr ⟨hlt, hget⟩, fun hmem => ?_⟩
  obtain ⟨j, hj, hc⟩ := List.mem_iff_getElem.mp hmem
  rw [List.length_take] at hj
  rw [List.getElem_take] at hc
  exact hearlier j (by omega) hc

theorem find?_eq_none_iff :
    find? c t start stop = none ↔ c ∉ Span.cut ⟨start, stop⟩ t := by
  rw [find?, slice_eq_cut, Option.map_eq_none_iff, List.idxOf?_eq_none_iff]

theorem find?_eq_some (h : find? c t start stop = some i) :
    start ≤ i ∧ i < stop ∧ t[i]? = some c ∧ c ∉ Span.cut ⟨start, i⟩ t := by
  rw [find?, slice_eq_cut] at h
  obtain ⟨k, hk, rfl⟩ := Option.map_eq_some_iff.mp h
  obtain ⟨hc, hearlier⟩ := idxOf?_eq_some hk
  rw [clampIndex_of_mem_cut (List.mem_of_getElem? hc)]
  have hlt := (List.getElem?_eq_some_iff.mp hc).1
  rw [Span.length_cut] at hlt
  rw [Span.getElem?_cut (by omega)] at hc
  rw [Span.take_cut, Nat.min_eq_left (by omega)] at hearlier
  exact ⟨by omega, by omega, hc, hearlier⟩

theorem findLast?_eq_none_iff :
    findLast? c t start stop = none ↔ c ∉ Span.cut ⟨start, stop⟩ t := by
  rw [findLast?, slice_eq_cut, Option.map_eq_none_iff, List.idxOf?_eq_none_iff, List.mem_reverse]

theorem findLast?_eq_some (h : findLast? c t start stop = some i) :
    start ≤ i ∧ i < stop ∧ t[i]? = some c ∧ c ∉ Span.cut ⟨i + 1, stop⟩ t := by
  rw [findLast?, slice_eq_cut] at h
  obtain ⟨k, hk, rfl⟩ := Option.map_eq_some_iff.mp h
  obtain ⟨hc, hlater⟩ := idxOf?_eq_some hk
  rw [clampIndex_of_mem_cut (List.mem_reverse.mp (List.mem_of_getElem? hc))]
  have hlt := (List.getElem?_eq_some_iff.mp hc).1
  rw [List.length_reverse] at hlt
  rw [List.getElem?_reverse hlt] at hc
  -- what follows the place in the window comes before it when the window is read backwards
  rw [List.take_reverse, List.mem_reverse, Span.drop_cut] at hlater
  rw [Span.length_cut] at hlt hc hlater ⊢
  rw [Span.getElem?_cut (by omega)] at hc
  refine ⟨by omega, by omega, hc, ?_⟩
  rwa [show start + (min stop t.length - start - 1 - k) + 1 =
    start + (min stop t.length - start - k) by omega]

end Text

/-- Where a window may start in the half of it before its place: where the last sentence starts
there, else behind the first space there, else with the whole half. -/
inductive StartsWindow (t : Text) (half : Span) : Nat → Prop
  | sentence {k : Nat} : (half.cut t).SentenceStartsAt k →
      (∀ j, (half.cut t).SentenceStartsAt j → j ≤ k) → StartsWindow t half (half.start + k)
  | word {i : Nat} : (∀ j, ¬ (half.cut t).SentenceStartsAt j) → half.start ≤ i → i < half.stop →
      t[i]? = some ' ' → ' ' ∉ Span.cut ⟨half.start, i⟩ t → StartsWindow t half (i + 1)
  | whole : (∀ j, ¬ (half.cut t).SentenceStartsAt j) → ' ' ∉ half.cut t →
      StartsWindow t half half.start

namespace StartsWindow

variable {half : Span} {start : Nat}

theorem bounds (h : StartsWindow t half start) (hhalf : half.start ≤ half.stop) :
    half.start ≤ start ∧ start ≤ half.stop := by
  cases h with
  | sentence hk _ =>
    have hle := hk.le
    rw [Span.length_cut] at hle
    omega
  | word => omega
  | whole => omega

theorem exists_space_or (h : StartsWindow t half start) :
    (∃ i c, start = i + 1 ∧ t[i]? = some c ∧ Text.isSpace c = true) ∨ ' ' ∉ half.cut t := by
  cases h with
  | sentence hk _ =>
    obtain ⟨j, c, rfl, hc, hspace⟩ := hk.exists_space
    have hle := hk.le
    rw [Span.length_cut] at hle
    rw [Span.getElem?_cut (by omega)] at hc
    exact .inl ⟨half.start + j, c, rfl, hc, hspace⟩
  | @word i _ _ _ hc _ => exact .inl ⟨i, ' ', rfl, hc, rfl⟩
  | whole _ hnone => exact .inr hnone

end StartsWindow

/-- The window starts with the text if half its width reaches back that far, else in the half before
its place. -/
theorem windowStart_cases {position : Nat} (hposition : position ≤ t.length) (maxChars : Nat) :
    (position < maxChars / 2 ∧ windowStart t position maxChars = 0) ∨
    (maxChars / 2 ≤ position ∧ ∃ start : Nat, windowStart t position maxChars = start ∧
      StartsWindow t ⟨position - maxChars / 2, position⟩ start) := by
  unfold windowStart
  dsimp only
  split
  · exact .inl ⟨by omega, rfl⟩
  · refine .inr ⟨by omega, ?_⟩
    -- no index is clamped: the half before the place lies within the text
    have hlookback : max 0 ((position : Int) - maxChars / 2) = (position - maxChars / 2 : Nat) := by
      omega
    rw [hlookback, clampIndex_natCast, Nat.min_eq_left (by omega), slice_eq_cut]
    split
    · rename_i i hi
      obtain ⟨k, rfl, hk, hlast⟩ := getLast?_sentenceStarts_eq_some hi
      exact ⟨_, rfl, .sentence hk hlast⟩
    · rename_i hnone
      have hnone := getLast?_sentenceStarts_eq_none_iff.mp hnone
      split
      · rename_i i hi
        obtain ⟨hfirst, hlast, hspace, hearlier⟩ := Text.find?_eq_some hi
        exact ⟨i + 1, rfl, .word hnone hfirst hlast hspace hearlier⟩
      · rename_i hspace
        exact ⟨_, rfl, .whole hnone (Text.find?_eq_none_iff.mp hspace)⟩

theorem windowStart_bounds {position : Nat} (hposition : position ≤ t.length) (maxChars : Nat) :
    ∃ start : Nat, windowStart t position maxChars = start ∧ start ≤ position ∧
      position ≤ start + maxChars / 2 := by
  rcases windowStart_cases hposition maxChars with ⟨hnear, hstart⟩ | ⟨hfar, start, hstart, hhalf⟩
  · exact ⟨0, hstart, Nat.zero_le _, by omega⟩
  · have hbounds := hhalf.bounds (Nat.sub_le _ _)
    dsimp only at hbounds
    exact ⟨start, hstart, hbounds.2, by omega⟩

/-- The window holds the place that it is made for, which lies within the text or at its end: it
starts there or before, by half its width at most, and ends after it. A window that does not start
with the text starts right behind white space, unless there is no space between the place and what
lies half the width before it. -/
theorem windowStart_holds_place (t : Text) {position maxChars : Int} (hfirst : 0 ≤ position)
    (hlast : position ≤ t.length) (hwidth : 1 ≤ maxChars) :
    let start := windowStart t position maxChars
    let lookback := max 0 (position - maxChars / 2)
    (0 ≤ start ∧ start ≤ position ∧ position < start + maxChars) ∧
      position - start ≤ maxChars / 2 ∧
      (0 < start →
        (∃ (i : Nat) (c : Char), start = i + 1 ∧ t[i]? = some c ∧ Text.isSpace c = true) ∨
          ' ' ∉ slice t lookback position) := by
  intro start lookback
  obtain ⟨position, rfl⟩ := Int.eq_ofNat_of_zero_le hfirst
  obtain ⟨maxChars, rfl⟩ := Int.eq_ofNat_of_zero_le (Int.le_trans (by decide) hwidth)
  have hposition : position ≤ t.length := Int.ofNat_le.mp hlast
  obtain ⟨n, hn, hle, hhalf⟩ := windowStart_bounds hposition maxChars
  have hstart : start = n := hn
  refine ⟨by omega, by omega, fun hpos => ?_⟩
  rcases windowStart_cases hposition maxChars with ⟨-, hzero⟩ | ⟨hfar, i, hi, hstarts⟩
  · exact absurd hzero (Int.ne_of_gt hpos)
  · have hlookback : lookback = (position - maxChars / 2 : Nat) := by omega
    rw [hlookback, slice_eq_cut]
    refine hstarts.exists_space_or.imp_left fun ⟨j, c, hj, hc, hspace⟩ => ⟨j, c, ?_, hc, hspace⟩
    rw [show start = i from hi, hj]
    rfl

/-- The white space behind a sentence may run up to the place. -/
theorem windowStart_holds_place_after_sentence :
    let t : Text := "Stop.  Go on".toList
    let start := windowStart t 7 7
    (0 : Int) ≤ 7 ∧ (7 : Int) ≤ t.length ∧ (1 : Int) ≤ 7 ∧ start = 7 ∧ 7 < start + 7 ∧
      ∃ (i : Nat) (c : Char), start = i + 1 ∧ t[i]? = some c ∧ Text.isSpace c = true := by
  intro t start
  have hfirst : (0 : Int) ≤ 7 := by decide
  have hlast : (7 : Int) ≤ t.length := by decide
  have hwidth : (1 : Int) ≤ 7 := by decide
  have hstart : start = 7 := by decide
  have hpos : 0 < start := by rw [hstart]; decide
  have hspace : ' ' ∈ slice t (max 0 (7 - 7 / 2)) 7 := by decide
  obtain ⟨⟨-, -, hholds⟩, -, hbehind⟩ := windowStart_holds_place t hfirst hlast hwidth
  exact ⟨hfirst, hlast, hwidth, hstart, hholds, (hbehind hpos).resolve_right fun h => h hspace⟩

theorem windowStop_cases (t : Text) (start maxChars : Nat) :
    (windowStop t start maxChars = (start + maxChars : Nat) ∧
      (t.length ≤ start + maxChars ∨ ' ' ∉ Span.cut ⟨start + 1, start + maxChars⟩ t)) ∨
    ∃ i : Nat, windowStop t start maxChars = i ∧ start + maxChars < t.length ∧ start < i ∧
      i < start + maxChars ∧ t[i]? = some ' ' ∧ ' ' ∉ Span.cut ⟨i + 1, start + maxChars⟩ t := by
  unfold windowStop
  dsimp only
  rw [show (start : Int) + maxChars = (start + maxChars : Nat) by omega]
  split
  · rename_i hshort
    split
    · rename_i i hi
      obtain ⟨hfirst, hlast, hspace, hlater⟩ := Text.findLast?_eq_some hi
      split
      · exact .inr ⟨i, rfl, by omega, by omega, hlast, hspace, hlater⟩
      · rename_i hnot
        obtain rfl : i = start := by omega
        exact .inl ⟨rfl, .inr hlater⟩
    · rename_i hnone
      refine .inl ⟨rfl, .inr fun h => Text.findLast?_eq_none_iff.mp hnone ?_⟩
      exact Span.mem_cut_mono (Nat.le_succ start) (Nat.le_refl _) h
  · exact .inl ⟨rfl, .inl (by omega)⟩

/-- The end of a window is drawn back to before the index `i`: the text goes on after the window, a
space stands before `i` in it, and none from there on. -/
def IsDrawnBack (t : Text) (start maxChars i : Nat) : Prop :=
  start + maxChars < t.length ∧ ' ' ∈ Span.cut ⟨start + 1, i⟩ t ∧
    ' ' ∉ Span.cut ⟨i, start + maxChars⟩ t

instance (t : Text) (start maxChars i : Nat) : Decidable (IsDrawnBack t start maxChars i) :=
  inferInstanceAs (Decidable (_ ∧ _ ∧ _))

theorem le_windowStop_iff {start maxChars i : Nat} (hi : i ≤ start + maxChars) :
    (i : Int) ≤ windowStop t start maxChars ↔ ¬ IsDrawnBack t start maxChars i := by
  rcases windowStop_cases t start maxChars with ⟨hstop, hkept⟩ |
    ⟨k, hstop, hlong, hfirst, hlast, hspace, hlater⟩
  · refine iff_of_true (by omega) fun ⟨hlong, hbefore, _⟩ => ?_
    rcases hkept with hshort | hnone
    · omega
    · exact hnone (Span.mem_cut_mono (Nat.le_refl _) hi hbefore)
  · rw [hstop, Int.ofNat_le]
    constructor
    · rintro hik ⟨-, -, hafter⟩
      exact hafter (Span.mem_cut_iff.mpr ⟨k, hik, hlast, hspace⟩)
    · intro hback
      by_contra hki
      have hbefore : ' ' ∈ Span.cut ⟨start + 1, i⟩ t :=
        Span.mem_cut_iff.mpr ⟨k, hfirst, by omega, hspace⟩
      refine hback ⟨hlong, hbefore, fun h => hlater ?_⟩
      exact Span.mem_cut_mono (by omega) (Nat.le_refl _) h

end ArticleArchive
