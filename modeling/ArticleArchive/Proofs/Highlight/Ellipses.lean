import ArticleArchive.Proofs.Highlight.Cover
import ArticleArchive.Proofs.Highlight.Cuts

namespace ArticleArchive

namespace Text

variable {t a b needle before middle after : Text} {i j m : Nat}

theorem exists_foldsInto (h : j < (fold t).length) : ∃ i, FoldsInto t i j := by
  have hlen : j < (foldWithOrigins t).length := by
    rwa [← List.length_map, map_fst_foldWithOrigins]
  exact ⟨_, length_fold_take_of_origin (List.getElem?_eq_getElem hlen)⟩

theorem FoldsInto.lt_length_iff (h : FoldsInto (a ++ b) i j) :
    i < a.length ↔ j < (fold a).length := by
  obtain ⟨hfrom, hto⟩ := h
  constructor
  · intro hi
    have hmono := length_fold_take_mono (a ++ b) (show i + 1 ≤ a.length by omega)
    rw [List.take_left] at hmono
    omega
  · intro hj
    by_contra hi
    have hmono := length_fold_take_mono (a ++ b) (Nat.le_of_not_lt hi)
    rw [List.take_left] at hmono
    omega

theorem foldsInto_append_left (hi : i < a.length) :
    FoldsInto (a ++ b) i j ↔ FoldsInto a i j := by
  rw [FoldsInto, FoldsInto, List.take_append_of_le_length (Nat.le_of_lt hi),
    List.take_append_of_le_length hi]

theorem foldsInto_append_right :
    FoldsInto (a ++ b) (a.length + i) ((fold a).length + j) ↔ FoldsInto b i j := by
  rw [FoldsInto, FoldsInto, Nat.add_assoc, List.take_length_add_append, List.take_length_add_append,
    fold_append, fold_append, List.length_append, List.length_append]
  omega

theorem length_fold_take_le (t : Text) (i : Nat) : (fold (t.take i)).length ≤ (fold t).length := by
  obtain ⟨rest, hrest⟩ := List.take_prefix i t
  have hlen := congrArg (fun u => (fold u).length) hrest
  simp only [fold_append, List.length_append] at hlen
  omega

theorem FoldsInto.lt_length (h : FoldsInto t i j) : i < t.length := by
  by_contra hi
  obtain ⟨hfrom, hto⟩ := h
  rw [List.take_of_length_le (by omega)] at hfrom hto
  omega

/-- An occurrence in the fold of a text in three parts has a part outside the fold of the middle
one. -/
def SticksOut (needle before middle after : Text) : Prop :=
  ∃ k, needle <+: (fold (before ++ (middle ++ after))).drop k ∧
    (k < (fold before).length ∨ (fold (before ++ middle)).length < k + needle.length)

theorem touches_middle (before after : Text) (h : Touches needle middle m) :
    Touches needle (before ++ (middle ++ after)) (before.length + m) := by
  obtain ⟨k, hk, j, hkj, hjk, hfolds⟩ := h
  have hmiddle : j < (fold middle).length :=
    Nat.lt_of_lt_of_le hfolds.2 (length_fold_take_le middle (m + 1))
  refine ⟨(fold before).length + k, ?_, (fold before).length + j, by omega, by omega,
    foldsInto_append_right.mpr ((foldsInto_append_left hfolds.lt_length).mpr hfolds)⟩
  rw [fold_append, fold_append, List.drop_length_add_append,
    List.drop_append_of_le_length (by omega)]
  exact hk.trans (List.prefix_append _ _)

theorem exists_touches_middle (hin : ¬ SticksOut needle before middle after)
    (h : Touches needle (before ++ (middle ++ after)) i) :
    ∃ m, m < middle.length ∧ i = before.length + m ∧ Touches needle middle m := by
  obtain ⟨k, hk, j, hkj, hjk, hfolds⟩ := h
  -- the occurrence stays in the fold of the middle part, and so does what it comes from
  have hbounds :
      (fold before).length ≤ k ∧ k + needle.length ≤ (fold (before ++ middle)).length := by
    by_contra hout
    exact hin ⟨k, hk, by omega⟩
  rw [fold_append, List.length_append] at hbounds
  have hi : ¬ i < before.length := by
    rw [hfolds.lt_length_iff]
    omega
  obtain ⟨m, rfl⟩ := Nat.exists_eq_add_of_le (Nat.le_of_not_lt hi)
  obtain ⟨k, rfl⟩ := Nat.exists_eq_add_of_le hbounds.1
  obtain ⟨j, rfl⟩ := Nat.exists_eq_add_of_le (Nat.le_trans hbounds.1 hkj)
  rw [foldsInto_append_right] at hfolds
  have hm : m < middle.length := by
    rw [hfolds.lt_length_iff]
    omega
  rw [foldsInto_append_left hm] at hfolds
  refine ⟨m, hm, rfl, k, ?_, j, by omega, by omega, hfolds⟩
  rw [fold_append, fold_append, List.drop_length_add_append,
    List.drop_append_of_le_length (by omega)] at hk
  refine List.prefix_of_prefix_length_le hk (List.prefix_append _ _) ?_
  rw [List.length_drop]
  omega

theorem SticksOut.exists_touches (hne : needle ≠ []) (h : SticksOut needle before middle after) :
    ∃ i, Touches needle (before ++ (middle ++ after)) i ∧
      (i < before.length ∨ (before ++ middle).length ≤ i) := by
  obtain ⟨k, hk, hout⟩ := h
  have hpos := List.length_pos_iff.mpr hne
  have hlen := hk.length_le
  rw [List.length_drop] at hlen
  rcases hout with hbefore | hafter
  · obtain ⟨i, hi⟩ := exists_foldsInto (t := before ++ (middle ++ after)) (j := k) (by omega)
    exact ⟨i, ⟨k, hk, k, Nat.le_refl k, by omega, hi⟩, .inl (hi.lt_length_iff.mpr hbefore)⟩
  · obtain ⟨i, hi⟩ := exists_foldsInto (t := before ++ (middle ++ after))
      (j := k + needle.length - 1) (by omega)
    refine ⟨i, ⟨k, hk, _, by omega, by omega, hi⟩, .inr ?_⟩
    rw [← List.append_assoc] at hi
    rw [← Nat.not_lt, hi.lt_length_iff]
    omega

theorem SticksOut.exists_mem (hne : needle ≠ []) (h : SticksOut needle before middle after) :
    ∃ c ∈ needle, c ∈ fold before ∨ c ∈ fold after := by
  obtain ⟨k, ⟨rest, hrest⟩, hout⟩ := h
  have hpos := List.length_pos_iff.mpr hne
  have hchar (n : Nat) (hn : n < needle.length) :
      (fold before ++ (fold middle ++ fold after))[k + n]? = some needle[n] := by
    rw [← fold_append, ← fold_append, ← List.getElem?_drop, ← hrest,
      List.getElem?_append_left hn, List.getElem?_eq_getElem hn]
  rcases hout with hbefore | hafter
  · refine ⟨_, List.getElem_mem hpos, .inl ?_⟩
    have hfirst := hchar 0 hpos
    rw [Nat.add_zero, List.getElem?_append_left hbefore] at hfirst
    exact List.mem_of_getElem? hfirst
  · have hlt : needle.length - 1 < needle.length := by omega
    refine ⟨_, List.getElem_mem hlt, .inr ?_⟩
    have hlast := hchar _ hlt
    rw [← List.append_assoc, ← fold_append, List.getElem?_append_right (by omega)] at hlast
    exact List.mem_of_getElem? hlast

end Text

namespace MarkStyle

variable {t : Text} {terms : List Text} {maxChars : Nat}

def excerptWindow (t : Text) (terms : List Text) (maxChars : Nat) : Span :=
  windowSpan (stripMarkup t) ((highlightSpans (stripMarkup t) terms).head?.map Span.start) maxChars

/-- The characters of the text without markup that its excerpt shows. -/
def excerptSpan (t : Text) (terms : List Text) (maxChars : Nat) : Span :=
  (excerptWindow t terms maxChars).trimmed (stripMarkup t)

def excerptBefore (t : Text) (terms : List Text) (maxChars : Nat) : Text :=
  ellipsisBefore (excerptWindow t terms maxChars).start

def excerptAfter (t : Text) (terms : List Text) (maxChars : Nat) : Text :=
  ellipsisAfter (stripMarkup t) (excerptWindow t terms maxChars).stop

theorem excerptWindow_fits (t : Text) (terms : List Text) (maxChars : Nat) :
    (excerptWindow t terms maxChars).start ≤ (excerptWindow t terms maxChars).stop ∧
      (excerptWindow t terms maxChars).stop ≤ (stripMarkup t).length := by
  obtain ⟨hle, hfits, -⟩ := windowSpan_fits (stripMarkup t)
    ((highlightSpans (stripMarkup t) terms).head?.map Span.start) maxChars
  exact ⟨hle, hfits⟩

theorem excerptSpan_fits (t : Text) (terms : List Text) (maxChars : Nat) :
    (excerptSpan t terms maxChars).start ≤ (excerptSpan t terms maxChars).stop ∧
      (excerptSpan t terms maxChars).stop ≤ (stripMarkup t).length :=
  (excerptWindow_fits t terms maxChars).elim Span.trimmed_fits

theorem excerpt_eq (t : Text) (terms : List Text) (maxChars : Nat) :
    excerpt t terms maxChars = excerptBefore t terms maxChars ++
      ((excerptSpan t terms maxChars).cut (stripMarkup t) ++ excerptAfter t terms maxChars) := by
  have hwindow := (excerptWindow_fits t terms maxChars).1
  have hanchor : excerpt t terms maxChars = snippet (stripMarkup t)
      (((highlightSpans (stripMarkup t) terms).head?.map Span.start).map fun (i : Nat) => (i : Int))
      maxChars := by
    rw [excerpt, Option.map_map]
    rfl
  rw [hanchor, excerptSpan, Span.cut_trimmed hwindow, excerptBefore, excerptAfter, excerptWindow]
  generalize (highlightSpans (stripMarkup t) terms).head?.map Span.start = anchor
  rcases Nat.lt_or_ge maxChars (stripMarkup t).length with hlong | hshort
  · rw [snippet_of_long anchor hlong]
  · rw [snippet_of_short _ hshort, windowSpan, if_pos hshort]
    simp only [ellipsisBefore, ellipsisAfter, Nat.lt_irrefl, if_false, Span.cut, List.take_length,
      List.drop_zero, List.nil_append, List.append_nil]
    exact (Text.strip_strip _).symm

/-- A marked character of an excerpt is one of the text, and the text has it marked too. -/
def MarksText (t : Text) (terms : List Text) (maxChars : Nat) : Prop :=
  let shown := excerptSpan t terms maxChars
  ∀ i, Span.Covers (highlightSpans (excerpt t terms maxChars) terms) i →
    ∃ m, m < shown.stop - shown.start ∧ i = (excerptBefore t terms maxChars).length + m ∧
      (excerpt t terms maxChars)[i]? = (stripMarkup t)[shown.start + m]? ∧
      Span.Covers (highlightSpans (stripMarkup t) terms) (shown.start + m)

/-- An occurrence of a term in an excerpt reaches into an ellipsis. -/
def ReachesEllipsis (t : Text) (terms : List Text) (maxChars : Nat) : Prop :=
  ∃ term ∈ terms, Text.fold term ≠ [] ∧
    (Text.fold term).SticksOut (excerptBefore t terms maxChars)
      ((excerptSpan t terms maxChars).cut (stripMarkup t)) (excerptAfter t terms maxChars)

theorem eq_dot_of_mem_fold {c : Char} {u : Text} (hu : u ∈ [[], ellipsis])
    (h : c ∈ Text.fold u) : c = '.' := by
  simp only [List.mem_cons, List.not_mem_nil, or_false] at hu
  rcases hu with rfl | rfl
  · simp at h
  · have hfold : Text.fold ellipsis = ellipsis := by decide +kernel
    rw [hfold] at h
    simpa [ellipsis] using h

theorem ReachesEllipsis.exists_dot (h : ReachesEllipsis t terms maxChars) :
    ∃ term ∈ terms, '.' ∈ Text.fold term := by
  obtain ⟨term, hterm, hne, hout⟩ := h
  obtain ⟨c, hc, hellipsis⟩ := hout.exists_mem hne
  have hdot : c = '.' :=
    hellipsis.elim (eq_dot_of_mem_fold (ellipsisBefore_mem _))
      (eq_dot_of_mem_fold (ellipsisAfter_mem _ _))
  exact ⟨term, hterm, hdot ▸ hc⟩

theorem length_excerptSpan_cut (t : Text) (terms : List Text) (maxChars : Nat) :
    ((excerptSpan t terms maxChars).cut (stripMarkup t)).length =
      (excerptSpan t terms maxChars).stop - (excerptSpan t terms maxChars).start := by
  rw [Span.length_cut, Nat.min_eq_left (excerptSpan_fits t terms maxChars).2]

theorem getElem?_excerpt {m : Nat}
    (hm : m < (excerptSpan t terms maxChars).stop - (excerptSpan t terms maxChars).start) :
    (excerpt t terms maxChars)[(excerptBefore t terms maxChars).length + m]? =
      (stripMarkup t)[(excerptSpan t terms maxChars).start + m]? := by
  rw [excerpt_eq, List.getElem?_append_right (Nat.le_add_right _ _), Nat.add_sub_cancel_left,
    List.getElem?_append_left (by rwa [length_excerptSpan_cut]), Span.getElem?_cut (by omega)]

theorem stripMarkup_parts (t : Text) (terms : List Text) (maxChars : Nat) :
    (stripMarkup t).take (excerptSpan t terms maxChars).start ++
      ((excerptSpan t terms maxChars).cut (stripMarkup t) ++
        (stripMarkup t).drop (excerptSpan t terms maxChars).stop) = stripMarkup t := by
  rw [Span.cut, drop_take_append_drop _ (excerptSpan_fits t terms maxChars).1,
    List.take_append_drop]

theorem marksText_iff : MarksText t terms maxChars ↔ ¬ ReachesEllipsis t terms maxChars := by
  constructor
  · rintro hmarks ⟨term, hterm, hne, hout⟩
    obtain ⟨i, htouches, hi⟩ := hout.exists_touches hne
    rw [← excerpt_eq] at htouches
    obtain ⟨m, hm, rfl, -, -⟩ :=
      hmarks i (covers_highlightSpans_iff.mpr ⟨term, hterm, hne, htouches⟩)
    rw [List.length_append, length_excerptSpan_cut] at hi
    omega
  · intro hreach i hi
    obtain ⟨term, hterm, hne, htouches⟩ := covers_highlightSpans_iff.mp hi
    rw [excerpt_eq] at htouches
    obtain ⟨m, hm, rfl, hmiddle⟩ :=
      Text.exists_touches_middle (fun hout => hreach ⟨term, hterm, hne, hout⟩) htouches
    rw [length_excerptSpan_cut] at hm
    -- the same occurrence in the text, of which the excerpt shows the middle
    have htext := Text.touches_middle ((stripMarkup t).take (excerptSpan t terms maxChars).start)
      ((stripMarkup t).drop (excerptSpan t terms maxChars).stop) hmiddle
    obtain ⟨hle, hfits⟩ := excerptSpan_fits t terms maxChars
    rw [stripMarkup_parts, List.length_take, Nat.min_eq_left (Nat.le_trans hle hfits)] at htext
    exact ⟨m, hm, rfl, getElem?_excerpt hm, covers_highlightSpans_iff.mpr ⟨term, hterm, hne, htext⟩⟩

/-- Tags go around the places of the terms in the excerpt. They mark characters of the text alone,
and only such as the text has marked, if and only if no occurrence of a term in the excerpt reaches
into an ellipsis, and none does unless a term has a dot in it. If no term occurs in the text, the
excerpt has no mark under the same condition. -/
theorem excerpt_marks_text_iff (t : Text) (terms : List Text) (maxChars : Nat) :
    (∀ s : MarkStyle, s.highlightSnippet t terms maxChars =
      s.mark (excerpt t terms maxChars)
        ((highlightSpans (excerpt t terms maxChars) terms).map range)) ∧
    (MarksText t terms maxChars ↔ ¬ ReachesEllipsis t terms maxChars) ∧
    ((∀ term ∈ terms, '.' ∉ Text.fold term) → MarksText t terms maxChars) ∧
    ((∀ term ∈ terms, Text.fold term ≠ [] → ¬ Text.fold term <:+: Text.fold (stripMarkup t)) →
      (highlightSpans (excerpt t terms maxChars) terms = [] ↔
        ¬ ReachesEllipsis t terms maxChars)) := by
  refine ⟨fun s => rfl, marksText_iff, fun hdot => ?_, fun habsent => ?_⟩
  · refine marksText_iff.mpr fun hreach => ?_
    obtain ⟨term, hterm, hmem⟩ := hreach.exists_dot
    exact hdot term hterm hmem
  · -- the text has no marks, so that every mark of the excerpt comes from an ellipsis
    have hnone : highlightSpans (stripMarkup t) terms = [] := by
      by_contra hne
      obtain ⟨term, hterm, hne, hinfix⟩ := highlightSpans_ne_nil_iff.mp hne
      exact habsent term hterm hne hinfix
    rw [← marksText_iff]
    constructor
    · rintro hnil i ⟨p, hp, -⟩
      simp [hnil] at hp
    · intro hmarks
      by_contra hne
      obtain ⟨p, hp⟩ := List.exists_mem_of_ne_nil _ hne
      have hfits := (highlightSpans_apart (excerpt t terms maxChars) terms).fits p hp
      obtain ⟨m, -, -, -, q, hq, -⟩ := hmarks p.start ⟨p, hp, Nat.le_refl _, hfits.1⟩
      simp [hnone] at hq

/-- A text without a dot has its ellipsis marked. -/
theorem excerpt_marks_ellipsis_of_dots :
    let t : Text := "one two three four five".toList
    let terms : List Text := ["...".toList]
    (∀ term ∈ terms, Text.fold term ≠ [] → ¬ Text.fold term <:+: Text.fold (stripMarkup t)) ∧
      MarkStyle.highlightSnippet {} t terms 10 = "one two<mark>...</mark>".toList ∧
      ¬ MarksText t terms 10 := by
  intro t terms
  have habsent : ∀ term ∈ terms,
      Text.fold term ≠ [] → ¬ Text.fold term <:+: Text.fold (stripMarkup t) := by
    decide +kernel
  have hmarked : highlightSpans (excerpt t terms 10) terms ≠ [] := by decide +kernel
  refine ⟨habsent, by decide +kernel, fun hmarks => hmarked ?_⟩
  obtain ⟨-, htext, -, hnone⟩ := excerpt_marks_text_iff t terms 10
  exact (hnone habsent).mpr (htext.mp hmarks)

end MarkStyle

end ArticleArchive
