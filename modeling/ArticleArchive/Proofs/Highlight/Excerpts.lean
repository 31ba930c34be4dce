import ArticleArchive.Proofs.Highlight.Windows

namespace ArticleArchive

variable {t : Text} {p : Span}

namespace Span

/-- The span without the blanks at both ends of what it holds. -/
def trimmed (p : Span) (t : Text) : Span :=
  let first := p.start + ((p.cut t).takeWhile Text.isBlank).length
  ⟨first, first + (Text.strip (p.cut t)).length⟩

theorem length_strip_cut_le (start stop : Nat) (t : Text) :
    ((cut ⟨start, stop⟩ t).takeWhile Text.isBlank).length +
      (Text.strip (cut ⟨start, stop⟩ t)).length ≤ min stop t.length - start := by
  obtain ⟨after, hparts, -⟩ := Text.exists_eq_append_trimBy Text.isBlank (cut ⟨start, stop⟩ t)
  have hlen := congrArg List.length hparts
  rw [length_cut, List.length_append, List.length_append] at hlen
  rw [Text.strip]
  omega

theorem cut_trimmed {start stop : Nat} (h : start ≤ stop) :
    (trimmed ⟨start, stop⟩ t).cut t = Text.strip (cut ⟨start, stop⟩ t) := by
  obtain ⟨after, hparts, -⟩ := Text.exists_eq_append_trimBy Text.isBlank (cut ⟨start, stop⟩ t)
  have hlen := length_strip_cut_le start stop t
  rw [← Text.strip] at hparts
  -- what is left stands behind the blanks at the beginning, and something trimmed may follow it
  have hrest := congrArg (List.drop ((cut ⟨start, stop⟩ t).takeWhile Text.isBlank).length) hparts
  rw [List.drop_left, drop_cut] at hrest
  have hkept := congrArg (List.take (Text.strip (cut ⟨start, stop⟩ t)).length) hrest
  rwa [take_cut, List.take_left, Nat.min_eq_left (by omega)] at hkept

/-- Trimming a window leaves a part of it alone unless all of the window up to the first character
of the part or all from its last one on is blank. -/
theorem within_trimmed_iff {start stop : Nat} (hp : p.Fits t.length) (hstart : start ≤ p.start) :
    p.Within (trimmed ⟨start, stop⟩ t) ↔
      p.stop ≤ stop ∧ (cut ⟨start, p.start + 1⟩ t).HasWord ∧
        (cut ⟨p.stop - 1, stop⟩ t).HasWord := by
  obtain ⟨hlt, hlen⟩ := hp
  have hkept := length_strip_cut_le start stop t
  simp only [Within, trimmed]
  by_cases hstop : p.stop ≤ stop
  · have hpart := Text.part_kept_iff (p := Text.isBlank) (t := cut ⟨start, stop⟩ t)
      (i := p.start - start) (j := p.stop - start) (by omega) (by rw [length_cut]; omega)
    rw [take_cut, drop_cut, Nat.min_eq_left (by omega),
      show start + (p.start - start + 1) = p.start + 1 by omega,
      show start + (p.stop - start - 1) = p.stop - 1 by omega, ← Text.strip] at hpart
    rw [and_iff_right hstop, Text.HasWord, Text.HasWord, ← hpart]
    omega
  · -- the part reaches beyond the window, of which trimming leaves no more than there is
    simp only [hstop, false_and, iff_false]
    omega

end Span

/-- The characters of a text that its excerpt around a place shows: all of a short text, else the
window of the excerpt without the blanks at both ends. -/
def shownSpan (t : Text) (position : Nat) (maxChars : Int) : Span :=
  if t.length ≤ maxChars then ⟨0, t.length⟩
  else
    let start := windowStart t position maxChars
    Span.trimmed ⟨start.toNat, (windowStop t start maxChars).toNat⟩ t

theorem exists_windowStop (t : Text) (start maxChars : Nat) :
    ∃ stop : Nat, windowStop t start maxChars = stop ∧ start ≤ stop := by
  rcases windowStop_cases t start maxChars with ⟨hstop, -⟩ | ⟨i, hstop, -, hi, -⟩
  · exact ⟨_, hstop, Nat.le_add_right _ _⟩
  · exact ⟨i, hstop, Nat.le_of_lt hi⟩

theorem snippet_eq {position : Nat} (hposition : position ≤ t.length) (maxChars : Nat) :
    ∃ before after, before ∈ [[], ellipsis] ∧ after ∈ [[], ellipsis] ∧
      snippet t (some (position : Int)) maxChars =
        before ++ ((shownSpan t position maxChars).cut t ++ after) := by
  rw [snippet, shownSpan]
  split
  · exact ⟨[], [], by simp, by simp, by simp [Span.cut]⟩
  · obtain ⟨start, hstart, -⟩ := windowStart_bounds hposition maxChars
    obtain ⟨stop, hstop, hle⟩ := exists_windowStop t start maxChars
    dsimp only
    rw [Int.min_eq_left (by omega), hstart, hstop, slice_eq_cut, Int.toNat_natCast,
      Int.toNat_natCast, Span.cut_trimmed hle, List.append_assoc]
    exact ⟨_, _, by split <;> simp, by split <;> simp, rfl⟩

theorem within_shownSpan_iff {maxChars start stop : Nat} (hp : p.Fits t.length)
    (hstart : windowStart t p.start maxChars = start) (hstop : windowStop t start maxChars = stop)
    (hle : start ≤ p.start) (hwidth : p.stop ≤ start + maxChars) :
    p.Within (shownSpan t p.start maxChars) ↔
      t.length ≤ maxChars ∨ (¬ IsDrawnBack t start maxChars p.stop ∧
        (Span.cut ⟨start, p.start + 1⟩ t).HasWord ∧ (Span.cut ⟨p.stop - 1, stop⟩ t).HasWord) := by
  have hback := le_windowStop_iff (t := t) hwidth
  rw [hstop, Int.ofNat_le] at hback
  rw [shownSpan, hstart]
  dsimp only
  rw [hstop, Int.toNat_natCast, Int.toNat_natCast, ← hback, ← Span.within_trimmed_iff hp hle]
  split
  · rename_i hshort
    exact iff_of_true ⟨Nat.zero_le _, hp.2⟩ (.inl (Int.ofNat_le.mp hshort))
  · rename_i hlong
    rw [or_iff_right (mt Int.ofNat_le.mpr hlong)]

namespace MarkStyle

theorem openTag_isInfix_highlight (s : MarkStyle) {terms : List Text}
    (h : highlightSpans t terms ≠ []) : s.openTag <:+: s.highlight t terms := by
  obtain ⟨p, ps, hps⟩ := List.exists_cons_of_ne_nil h
  have hmarked : s.highlight t terms = s.markFrom t 0 (range p :: ps.map range) := by
    rw [highlight, hps]
    rfl
  rw [hmarked, ← Int.natCast_zero, markFrom_cons]
  exact List.infix_append' _ _ _

/-- The window of an excerpt holds a first match of at most half its width. The excerpt shows the
match if and only if the whole text is short, or the end of the window is not drawn back to before
the end of the match and trimming takes nothing of the match. What is shown has a mark. -/
theorem first_match_shown_iff {terms : List Text} {maxChars : Int}
    (hp : (highlightSpans (stripMarkup t) terms).head? = some p)
    (hshort : (p.stop : Int) - p.start ≤ maxChars / 2) :
    let plain := stripMarkup t
    let shown := shownSpan plain p.start maxChars
    (∃ before after, before ∈ [[], ellipsis] ∧ after ∈ [[], ellipsis] ∧
      excerpt t terms maxChars = before ++ (shown.cut plain ++ after)) ∧
    (∃ start stop : Nat, windowStart plain p.start maxChars = start ∧
      windowStop plain start maxChars = stop ∧ start ≤ p.start ∧ p.stop ≤ start + maxChars ∧
      (p.Within shown ↔ plain.length ≤ maxChars ∨
        (¬ IsDrawnBack plain start maxChars.toNat p.stop ∧
          (Span.cut ⟨start, p.start + 1⟩ plain).HasWord ∧
          (Span.cut ⟨p.stop - 1, stop⟩ plain).HasWord))) ∧
    (p.Within shown → ∀ s : MarkStyle, s.openTag <:+: s.highlightSnippet t terms maxChars) := by
  intro plain shown
  have hmem : p ∈ highlightSpans plain terms := List.mem_of_mem_head? hp
  have hfits := (highlightSpans_apart plain terms).fits p hmem
  have hpos : p.start < p.stop := hfits.1
  have hlen : p.start ≤ plain.length := Nat.le_trans (Nat.le_of_lt hpos) hfits.2
  obtain ⟨width, rfl⟩ := Int.eq_ofNat_of_zero_le (show 0 ≤ maxChars by omega)
  obtain ⟨start, hstart, hle, hhalf⟩ := windowStart_bounds hlen width
  obtain ⟨stop, hstop, -⟩ := exists_windowStop plain start width
  -- half the width lies before the match at most, so the other half holds it
  have hwidth : p.stop ≤ start + width := by omega
  obtain ⟨before, after, hbefore, hafter, hexcerpt⟩ := snippet_eq hlen width
  have hcut : excerpt t terms width = before ++ (shown.cut plain ++ after) := by
    rw [excerpt, hp]
    exact hexcerpt
  refine ⟨⟨before, after, hbefore, hafter, hcut⟩,
    ⟨start, stop, hstart, hstop, hle, by omega, ?_⟩, fun hwithin s => ?_⟩
  · rw [Int.toNat_natCast, Int.ofNat_le]
    exact within_shownSpan_iff hfits hstart hstop hle hwidth
  · obtain ⟨term, hterm, hne, hinfix⟩ := exists_term_of_mem_highlightSpans hmem
    have hshown : p.cut plain <:+: excerpt t terms width := by
      rw [hcut]
      exact (hwithin.cut_isInfix plain).trans (List.infix_append' _ _ _)
    refine s.openTag_isInfix_highlight (highlightSpans_ne_nil_iff.mpr ⟨term, hterm, hne, ?_⟩)
    exact hinfix.trans (Text.fold_isInfix hshown)

/-- A window that ends in a long word is drawn back to the space before the word, and a match at the
beginning of the word is lost. -/
theorem first_match_hidden_in_long_word :
    let t : Text := "see pneumonoultramicroscopicsilicovolcanoconiosis".toList
    let terms : List Text := ["pneu".toList]
    let p : Span := ⟨4, 8⟩
    (highlightSpans (stripMarkup t) terms).head? = some p ∧ (p.stop : Int) - p.start ≤ 20 / 2 ∧
      excerpt t terms 20 = "see...".toList ∧
      ¬ p.Within (shownSpan (stripMarkup t) p.start 20) := by
  intro t terms p
  have hp : (highlightSpans (stripMarkup t) terms).head? = some p := by decide +kernel
  have hshort : (p.stop : Int) - p.start ≤ 20 / 2 := by decide
  obtain ⟨-, ⟨start, stop, hstart, -, -, -, hshown⟩, -⟩ := first_match_shown_iff hp hshort
  obtain rfl : start = 0 := by
    have hzero : windowStart (stripMarkup t) p.start 20 = (0 : Nat) := by decide +kernel
    exact Int.ofNat_inj.mp (hstart.symm.trans hzero)
  have hlong : ¬ ((stripMarkup t).length : Int) ≤ 20 := by decide +kernel
  have hback : IsDrawnBack (stripMarkup t) 0 20 p.stop := by decide +kernel
  refine ⟨hp, hshort, by decide +kernel, fun hwithin => ?_⟩
  exact (hshown.mp hwithin).elim hlong fun h => h.1 hback

end MarkStyle

end ArticleArchive
