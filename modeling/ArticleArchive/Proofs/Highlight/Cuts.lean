import ArticleArchive.Proofs.Highlight.Excerpts

namespace ArticleArchive

variable {t : Text}

def ellipsisBefore (start : Nat) : Text :=
  if 0 < start then ellipsis else []

def ellipsisAfter (t : Text) (stop : Nat) : Text :=
  if stop < t.length then ellipsis else []

theorem ellipsisBefore_mem (start : Nat) : ellipsisBefore start ∈ [[], ellipsis] := by
  rw [ellipsisBefore]
  split <;> simp

theorem ellipsisAfter_mem (t : Text) (stop : Nat) : ellipsisAfter t stop ∈ [[], ellipsis] := by
  rw [ellipsisAfter]
  split <;> simp

theorem length_le_of_mem_ellipses {u : Text} (h : u ∈ [[], ellipsis]) : u.length ≤ 3 := by
  have hlengths : ∀ u ∈ [[], ellipsis], u.length ≤ 3 := by decide
  exact hlengths u h

/-- The characters of a text that its excerpt is made from: all of a short text, else the window
around a place in it, or around its first character. -/
def windowSpan (t : Text) (anchor : Option Nat) (maxChars : Nat) : Span :=
  if t.length ≤ maxChars then ⟨0, t.length⟩
  else
    let start := windowStart t (min (anchor.getD 0) t.length : Nat) maxChars
    ⟨start.toNat, min (windowStop t start maxChars).toNat t.length⟩

theorem windowStop_le (t : Text) (start maxChars : Nat) :
    windowStop t start maxChars ≤ (start + maxChars : Nat) := by
  rcases windowStop_cases t start maxChars with ⟨hstop, -⟩ | ⟨i, hstop, -, -, hi, -⟩ <;> omega

theorem exists_windowSpan (anchor : Option Nat) {maxChars : Nat} (hlong : maxChars < t.length) :
    ∃ start stop : Nat, windowStart t (min (anchor.getD 0) t.length : Nat) maxChars = start ∧
      windowStop t start maxChars = stop ∧ start ≤ min (anchor.getD 0) t.length ∧ start ≤ stop ∧
      stop ≤ start + maxChars ∧ windowSpan t anchor maxChars = ⟨start, min stop t.length⟩ := by
  obtain ⟨start, hstart, hle, -⟩ :=
    windowStart_bounds (t := t) (Nat.min_le_right (anchor.getD 0) t.length) maxChars
  obtain ⟨stop, hstop, hlestop⟩ := exists_windowStop t start maxChars
  have hwidth := windowStop_le t start maxChars
  rw [hstop, Int.ofNat_le] at hwidth
  refine ⟨start, stop, hstart, hstop, hle, hlestop, hwidth, ?_⟩
  rw [windowSpan, if_neg (Nat.not_le.mpr hlong), hstart]
  dsimp only
  rw [hstop, Int.toNat_natCast, Int.toNat_natCast]

theorem windowSpan_fits (t : Text) (anchor : Option Nat) (maxChars : Nat) :
    let window := windowSpan t anchor maxChars
    window.start ≤ window.stop ∧ window.stop ≤ t.length ∧
      window.stop ≤ window.start + maxChars := by
  intro window
  by_cases hshort : t.length ≤ maxChars
  · have hall : window = ⟨0, t.length⟩ := if_pos hshort
    rw [hall]
    exact ⟨Nat.zero_le _, Nat.le_refl _, by rwa [Nat.zero_add]⟩
  · obtain ⟨start, stop, -, -, hle, hlestop, hwidth, hwindow⟩ :=
      exists_windowSpan anchor (Nat.lt_of_not_le hshort)
    rw [show window = _ from hwindow]
    dsimp only
    omega

theorem windowSpan_none_start (t : Text) (maxChars : Nat) :
    (windowSpan t none maxChars).start = 0 := by
  by_cases hshort : t.length ≤ maxChars
  · rw [windowSpan, if_pos hshort]
  · obtain ⟨start, stop, -, -, hle, -, -, hwindow⟩ :=
      exists_windowSpan none (Nat.lt_of_not_le hshort)
    rw [hwindow]
    simpa using hle

theorem snippet_of_short (anchor : Option Int) {maxChars : Nat} (hshort : t.length ≤ maxChars) :
    snippet t anchor maxChars = t :=
  if_pos (Int.ofNat_le.mpr hshort)

theorem windowStart_zero (t : Text) (maxChars : Nat) : windowStart t 0 maxChars = 0 := by
  obtain ⟨start, hstart, hle, -⟩ := windowStart_bounds (t := t) (Nat.zero_le _) maxChars
  rw [Nat.le_zero.mp hle] at hstart
  exact hstart

theorem snippet_anchor (t : Text) (anchor : Option Nat) (maxChars : Nat) :
    snippet t (anchor.map fun (i : Nat) => (i : Int)) maxChars =
      snippet t (some (min (anchor.getD 0) t.length : Nat)) maxChars := by
  cases anchor with
  | none =>
    have hfirst : min ((min 0 t.length : Nat) : Int) t.length = 0 := by omega
    simp only [Option.map_none, Option.getD_none, snippet, hfirst, windowStart_zero]
  | some i =>
    have hmin : min ((min i t.length : Nat) : Int) t.length = min (i : Int) t.length := by omega
    simp only [Option.map_some, Option.getD_some, snippet, hmin]

theorem snippet_of_long (anchor : Option Nat) {maxChars : Nat} (hlong : maxChars < t.length) :
    let window := windowSpan t anchor maxChars
    snippet t (anchor.map fun (i : Nat) => (i : Int)) maxChars =
      ellipsisBefore window.start ++
        (Text.strip (window.cut t) ++ ellipsisAfter t window.stop) := by
  intro window
  obtain ⟨start, stop, hstart, hstop, -, -, -, hwindow⟩ := exists_windowSpan anchor hlong
  have hcut : Span.cut ⟨start, min stop t.length⟩ t = Span.cut ⟨start, stop⟩ t := by
    rw [Span.cut, Span.cut, ← List.take_eq_take_min]
  have hafter : min stop t.length < t.length ↔ stop < t.length := by omega
  rw [show window = _ from hwindow, hcut, snippet_anchor, snippet, if_neg (by omega)]
  dsimp only
  rw [Int.min_eq_left (by omega), hstart, hstop, slice_eq_cut, List.append_assoc, ellipsisBefore,
    ellipsisAfter]
  simp only [Int.natCast_pos, Int.ofNat_lt, hafter]

theorem Span.trimmed_fits {p : Span} (hle : p.start ≤ p.stop) (hfits : p.stop ≤ t.length) :
    (p.trimmed t).start ≤ (p.trimmed t).stop ∧ (p.trimmed t).stop ≤ t.length := by
  obtain ⟨start, stop⟩ := p
  have hkept := length_strip_cut_le start stop t
  dsimp only [trimmed] at *
  omega

/-- Nothing but blanks is trimmed from the beginning of a window, and nothing but blanks from its
end. -/
theorem strip_cut_ends (t : Text) (window : Span) :
    (window.start = 0 → ∃ blanks, (∀ c ∈ blanks, Text.isBlank c = true) ∧
      blanks ++ Text.strip (window.cut t) <+: t) ∧
    (window.stop = t.length → ∃ blanks, (∀ c ∈ blanks, Text.isBlank c = true) ∧
      Text.strip (window.cut t) ++ blanks <:+ t) := by
  obtain ⟨after, hparts, hafter⟩ := Text.exists_eq_append_trimBy Text.isBlank (window.cut t)
  rw [← Text.strip] at hparts
  constructor
  · intro hstart
    refine ⟨(window.cut t).takeWhile Text.isBlank, fun c hc => List.mem_takeWhile_imp hc, ?_⟩
    have hprefix : window.cut t <+: t := by
      rw [Span.cut, hstart, List.drop_zero]
      exact List.take_prefix _ _
    refine List.IsPrefix.trans ⟨after, ?_⟩ hprefix
    rw [List.append_assoc, ← hparts]
  · intro hstop
    refine ⟨after, hafter, ?_⟩
    have hsuffix : window.cut t <:+ t := by
      rw [Span.cut, hstop, List.take_length]
      exact List.drop_suffix _ _
    exact List.IsSuffix.trans ⟨_, hparts.symm⟩ hsuffix

/-- A text that is short enough is its own excerpt. Of any other the excerpt is a window of at most
`maxChars` characters without the blanks at its ends, after an ellipsis if and only if the window
starts after the beginning of the text, and before one if and only if it stops before the end.
Without a place to show the window starts with the text, and at an end without an ellipsis nothing
but blanks is missing. -/
theorem snippet_is_window (t : Text) (anchor : Option Nat) (maxChars : Nat) :
    let excerpt := snippet t (anchor.map fun (i : Nat) => (i : Int)) maxChars
    (t.length ≤ maxChars → excerpt = t) ∧
    (maxChars < t.length → ∃ start stop, start ≤ stop ∧ stop ≤ t.length ∧ stop - start ≤ maxChars ∧
      excerpt = (if 0 < start then ellipsis else []) ++
        (Text.strip (Span.cut ⟨start, stop⟩ t) ++ if stop < t.length then ellipsis else []) ∧
      (anchor = none → start = 0) ∧
      (start = 0 → ∃ blanks, (∀ c ∈ blanks, Text.isBlank c = true) ∧
        blanks ++ Text.strip (Span.cut ⟨start, stop⟩ t) <+: t) ∧
      (stop = t.length → ∃ blanks, (∀ c ∈ blanks, Text.isBlank c = true) ∧
        Text.strip (Span.cut ⟨start, stop⟩ t) ++ blanks <:+ t)) ∧
    excerpt.length ≤ maxChars + 6 := by
  intro excerpt
  obtain ⟨hle, hfits, hwidth⟩ := windowSpan_fits t anchor maxChars
  refine ⟨snippet_of_short _, fun hlong => ?_, ?_⟩
  · obtain ⟨hfirst, hlast⟩ := strip_cut_ends t (windowSpan t anchor maxChars)
    refine ⟨_, _, hle, hfits, by omega, snippet_of_long anchor hlong, ?_, hfirst, hlast⟩
    rintro rfl
    exact windowSpan_none_start t maxChars
  · rcases Nat.lt_or_ge maxChars t.length with hlong | hshort
    · -- no part is longer than it may be: the window, and three characters for each ellipsis
      have hshown := Text.length_strip_le ((windowSpan t anchor maxChars).cut t)
      have hbefore := length_le_of_mem_ellipses
        (ellipsisBefore_mem (windowSpan t anchor maxChars).start)
      have hafter := length_le_of_mem_ellipses
        (ellipsisAfter_mem t (windowSpan t anchor maxChars).stop)
      rw [Span.length_cut] at hshown
      rw [show excerpt = _ from snippet_of_long anchor hlong, List.length_append,
        List.length_append]
      omega
    · rw [show excerpt = t from snippet_of_short _ hshort]
      omega

end ArticleArchive
