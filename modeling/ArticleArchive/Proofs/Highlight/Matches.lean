import Mathlib.Data.List.Infix
import ArticleArchive.Proofs.Highlight.Marks
import ArticleArchive.Proofs.Text.Occurrences

namespace ArticleArchive

namespace Span

/-- The span holds no character that the other one does not hold. -/
def Within (p q : Span) : Prop :=
  q.start ≤ p.start ∧ p.stop ≤ q.stop

variable {p : Span} {as : List Span}

theorem cut_isInfix (p : Span) (t : Text) : p.cut t <:+: t :=
  (List.drop_suffix _ _).isInfix.trans (List.take_prefix _ _).isInfix

theorem Within.cut_isInfix {q : Span} (h : p.Within q) (t : Text) : p.cut t <:+: q.cut t := by
  have hstart : (t.take p.stop).drop p.start <:+ (t.take p.stop).drop q.start :=
    List.drop_suffix_drop_left _ h.1
  have hstop : (t.take p.stop).drop q.start <+: (t.take q.stop).drop q.start :=
    (List.take_prefix_take_left h.2).drop _
  exact hstart.isInfix.trans hstop.isInfix

theorem exists_within_of_mem_joinOnto {a : Span} (h : p ∈ joinOnto a as) :
    ∃ q ∈ a :: as, q.Within p := by
  induction as generalizing a with
  | nil =>
    obtain rfl : p = a := by simpa [joinOnto] using h
    exact ⟨p, List.mem_cons_self, Nat.le_refl _, Nat.le_refl _⟩
  | cons b as ih =>
    unfold joinOnto at h
    split at h
    · obtain ⟨q, hq, hstart, hstop⟩ := ih h
      rcases List.mem_cons.mp hq with rfl | hq
      -- the joined span reaches as far as the first of the two
      · exact ⟨a, List.mem_cons_self, hstart, Nat.le_trans (Nat.le_max_left _ _) hstop⟩
      · exact ⟨q, by simp [hq], hstart, hstop⟩
    · rcases List.mem_cons.mp h with rfl | h
      · exact ⟨p, List.mem_cons_self, Nat.le_refl _, Nat.le_refl _⟩
      · obtain ⟨q, hq, hwithin⟩ := ih h
        exact ⟨q, List.mem_cons_of_mem a hq, hwithin⟩

theorem exists_within_of_mem_join (h : p ∈ join as) : ∃ q ∈ as, q.Within p := by
  cases as with
  | nil => simp [join] at h
  | cons a as => exact exists_within_of_mem_joinOnto h

theorem joinOnto_ne_nil (a : Span) (as : List Span) : joinOnto a as ≠ [] := by
  induction as generalizing a with
  | nil => simp [joinOnto]
  | cons b as ih =>
    unfold joinOnto
    split
    · exact ih _
    · simp

theorem join_eq_nil_iff : join as = [] ↔ as = [] := by
  cases as with
  | nil => simp [join]
  | cons a as => simp [join, joinOnto_ne_nil]

end Span

theorem foldWithOrigins_cons (c : Char) (t : Text) :
    foldWithOrigins (c :: t) =
      (Text.foldChar c).map (fun d => (d, 0)) ++
        (foldWithOrigins t).map fun p => (p.1, p.2 + 1) := by
  rw [foldWithOrigins, List.zipIdx_cons, List.flatMap_cons, List.zipIdx_succ, List.flatMap_map,
    foldWithOrigins, List.map_flatMap]
  simp only [List.map_map, Function.comp_def]

theorem map_fst_foldWithOrigins (t : Text) : (foldWithOrigins t).map (·.1) = Text.fold t := by
  induction t with
  | nil => rfl
  | cons c t ih => simp [foldWithOrigins_cons, Function.comp_def, ← ih]

theorem length_fold_take_of_origin {t : Text} {i : Nat} {p : Char × Nat}
    (h : (foldWithOrigins t)[i]? = some p) :
    (Text.fold (t.take p.2)).length ≤ i ∧ i < (Text.fold (t.take (p.2 + 1))).length := by
  induction t generalizing i p with
  | nil => simp [foldWithOrigins] at h
  | cons c t ih =>
    rw [foldWithOrigins_cons] at h
    rcases Nat.lt_or_ge i (Text.foldChar c).length with hi | hi
    · rw [List.getElem?_append_left (by simpa using hi), List.getElem?_map] at h
      obtain ⟨d, -, rfl⟩ := Option.map_eq_some_iff.mp h
      exact ⟨by simp, by simpa using hi⟩
    · rw [List.getElem?_append_right (by simpa using hi), List.length_map, List.getElem?_map] at h
      obtain ⟨q, hq, rfl⟩ := Option.map_eq_some_iff.mp h
      have := ih hq
      simp only [List.take_succ_cons, Text.fold_cons, List.length_append]
      omega

theorem infix_of_prefix_drop {needle before middle after : Text} {i : Nat}
    (h : needle <+: (before ++ (middle ++ after)).drop i) (hi : before.length ≤ i)
    (hstop : i + needle.length ≤ before.length + middle.length) : needle <:+: middle := by
  obtain ⟨k, rfl⟩ := Nat.exists_eq_add_of_le hi
  rw [List.drop_append, List.drop_of_length_le (by omega), List.nil_append,
    Nat.add_sub_cancel_left, List.drop_append_of_le_length (by omega)] at h
  have hlen : needle.length ≤ (middle.drop k).length := by
    rw [List.length_drop]
    omega
  have hmiddle : needle <+: middle.drop k :=
    List.prefix_of_prefix_length_le h (List.prefix_append _ _) hlen
  exact hmiddle.isInfix.trans (List.drop_suffix k middle).isInfix

theorem infix_fold_cut {t needle : Text} {i : Nat} {p : Span} (hne : needle ≠ [])
    (hneedle : needle <+: (Text.fold t).drop i)
    (h : originSpan? ((foldWithOrigins t).map (·.2)) needle.length i = some p) :
    needle <:+: Text.fold (p.cut t) := by
  have hpos := List.length_pos_iff.mpr hne
  have hfits := fits_of_originSpan? hpos h
  obtain ⟨hfirst, last, hlast, hstop⟩ := originSpan?_eq_some_iff.mp h
  rw [List.getElem?_map] at hfirst hlast
  obtain ⟨q, hq, hqstart⟩ := Option.map_eq_some_iff.mp hfirst
  obtain ⟨r, hr, rfl⟩ := Option.map_eq_some_iff.mp hlast
  have hbefore := (length_fold_take_of_origin hq).1
  have hafter := (length_fold_take_of_origin hr).2
  -- the text in three parts, the occurrence being in the fold of the middle one
  have hparts : t = t.take p.start ++ (p.cut t ++ t.drop p.stop) := by
    rw [Span.cut, drop_take_append_drop t (Nat.le_of_lt hfits.1), List.take_append_drop]
  have htake : t.take p.start ++ p.cut t = t.take p.stop := by
    have := List.take_append_drop p.start (t.take p.stop)
    rwa [List.take_take, Nat.min_eq_left (Nat.le_of_lt hfits.1)] at this
  rw [hparts, Text.fold_append, Text.fold_append] at hneedle
  refine infix_of_prefix_drop hneedle (by rwa [hqstart] at hbefore) ?_
  rw [← hstop, ← htake, Text.fold_append, List.length_append] at hafter
  omega

theorem mem_termSpans_iff {t term : Text} {p : Span} :
    p ∈ termSpans (foldWithOrigins t) term ↔
      Text.fold term ≠ [] ∧ ∃ i, Text.fold term <+: (Text.fold t).drop i ∧
        originSpan? ((foldWithOrigins t).map (·.2)) (Text.fold term).length i = some p := by
  unfold termSpans
  dsimp only
  split
  · rename_i hempty
    simp [List.isEmpty_iff.mp hempty]
  · rename_i hempty
    have hne : Text.fold term ≠ [] := by simpa using hempty
    simp [map_fst_foldWithOrigins, Text.mem_occurrences_iff hne, hne]

theorem exists_originSpan? {t needle : Text} {i : Nat} (hne : needle ≠ [])
    (h : needle <+: (Text.fold t).drop i) :
    ∃ p, originSpan? ((foldWithOrigins t).map (·.2)) needle.length i = some p := by
  have hpos := List.length_pos_iff.mpr hne
  have hlen := h.length_le
  have hfolded : (foldWithOrigins t).length = (Text.fold t).length := by
    rw [← map_fst_foldWithOrigins, List.length_map]
  rw [List.length_drop] at hlen
  have hfirst : ((foldWithOrigins t).map (·.2))[i]? = some _ :=
    List.getElem?_eq_getElem (by simp; omega)
  have hlast : ((foldWithOrigins t).map (·.2))[i + needle.length - 1]? = some _ :=
    List.getElem?_eq_getElem (by simp; omega)
  exact ⟨⟨_, _⟩, originSpan?_eq_some_iff.mpr ⟨hfirst, _, hlast, rfl⟩⟩

theorem exists_of_mem_termSpans {t term : Text} {p : Span}
    (h : p ∈ termSpans (foldWithOrigins t) term) :
    Text.fold term ≠ [] ∧ Text.fold term <:+: Text.fold (p.cut t) := by
  obtain ⟨hne, i, hi, hspan⟩ := mem_termSpans_iff.mp h
  exact ⟨hne, infix_fold_cut hne hi hspan⟩

theorem exists_mem_termSpans {t term : Text} (hne : Text.fold term ≠ [])
    (h : Text.fold term <:+: Text.fold t) : ∃ p, p ∈ termSpans (foldWithOrigins t) term := by
  obtain ⟨i, hi⟩ := (Text.exists_mem_occurrences_iff hne).mpr h
  rw [Text.mem_occurrences_iff hne] at hi
  obtain ⟨p, hp⟩ := exists_originSpan? hne hi
  exact ⟨p, mem_termSpans_iff.mpr ⟨hne, i, hi, hp⟩⟩

theorem exists_term_of_mem_highlightSpans {t : Text} {terms : List Text} {p : Span}
    (h : p ∈ highlightSpans t terms) :
    ∃ term ∈ terms, Text.fold term ≠ [] ∧ Text.fold term <:+: Text.fold (p.cut t) := by
  obtain ⟨q, hq, hwithin⟩ := Span.exists_within_of_mem_join h
  obtain ⟨term, hterm, hspan⟩ := List.mem_flatMap.mp (List.mem_mergeSort.mp hq)
  obtain ⟨hne, hinfix⟩ := exists_of_mem_termSpans hspan
  exact ⟨term, hterm, hne, hinfix.trans (Text.fold_isInfix (hwithin.cut_isInfix t))⟩

/-- A text has spans if and only if a term stands in it, case being ignored. -/
theorem highlightSpans_ne_nil_iff {t : Text} {terms : List Text} :
    highlightSpans t terms ≠ [] ↔
      ∃ term ∈ terms, Text.fold term ≠ [] ∧ Text.fold term <:+: Text.fold t := by
  constructor
  · intro h
    obtain ⟨p, hp⟩ := List.exists_mem_of_ne_nil _ h
    obtain ⟨term, hterm, hne, hinfix⟩ := exists_term_of_mem_highlightSpans hp
    exact ⟨term, hterm, hne, hinfix.trans (Text.fold_isInfix (p.cut_isInfix t))⟩
  · rintro ⟨term, hterm, hne, hinfix⟩ hnil
    obtain ⟨p, hp⟩ := exists_mem_termSpans hne hinfix
    have hmem : p ∈ (terms.flatMap (termSpans (foldWithOrigins t))).mergeSort Span.le :=
      List.mem_mergeSort.mpr (List.mem_flatMap.mpr ⟨term, hterm, hp⟩)
    rw [Span.join_eq_nil_iff.mp hnil] at hmem
    simp at hmem

end ArticleArchive
