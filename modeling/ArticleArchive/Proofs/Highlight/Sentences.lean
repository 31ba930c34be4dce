import ArticleArchive.Proofs.Text.Trim
import ArticleArchive.Snippet

namespace ArticleArchive

variable {t : Text} {c : Char}

theorem isSpace_of_endsSentence (h : endsSentence c = true) : Text.isSpace c = false := by
  simp only [endsSentence, Bool.or_eq_true, beq_iff_eq] at h
  rcases h with (rfl | rfl) | rfl <;> rfl

namespace Text

/-- The text ends with the end of a sentence and white space behind it. -/
def ClosesSentence (t : Text) : Prop :=
  ∃ before c spaces, t = before ++ c :: spaces ∧ endsSentence c = true ∧ spaces ≠ [] ∧
    ∀ d ∈ spaces, isSpace d = true

theorem ClosesSentence.one_lt_length (h : t.ClosesSentence) : 1 < t.length := by
  obtain ⟨before, c, spaces, rfl, -, hne, -⟩ := h
  have hpos := List.length_pos_iff.mpr hne
  rw [List.length_append, List.length_cons]
  omega

theorem closesSentence_cons_iff :
    ClosesSentence (c :: t) ↔
      (endsSentence c = true ∧ t ≠ [] ∧ ∀ d ∈ t, isSpace d = true) ∨ t.ClosesSentence := by
  constructor
  · rintro ⟨_ | ⟨b, before⟩, e, spaces, h, hend, hne, hspaces⟩
    · obtain ⟨rfl, rfl⟩ := List.cons.inj h
      exact .inl ⟨hend, hne, hspaces⟩
    · exact .inr ⟨before, e, spaces, (List.cons.inj h).2, hend, hne, hspaces⟩
  · rintro (⟨hend, hne, hspaces⟩ | ⟨before, e, spaces, rfl, hend, hne, hspaces⟩)
    · exact ⟨[], c, t, rfl, hend, hne, hspaces⟩
    · exact ⟨c :: before, e, spaces, rfl, hend, hne, hspaces⟩

theorem ClosesSentence.exists_not_isSpace (h : t.ClosesSentence) : ∃ c ∈ t, isSpace c = false := by
  obtain ⟨before, c, spaces, rfl, hend, -⟩ := h
  exact ⟨c, by simp, isSpace_of_endsSentence hend⟩

theorem ClosesSentence.exists_eq_concat (h : t.ClosesSentence) :
    ∃ before c, t = before ++ [c] ∧ isSpace c = true := by
  obtain ⟨before, c, spaces, rfl, -, hne, hspaces⟩ := h
  obtain ⟨spaces, d, rfl⟩ := List.eq_nil_or_concat spaces |>.resolve_left hne
  exact ⟨before ++ c :: spaces, d, by simp, hspaces d (by simp)⟩

/-- A sentence starts at the index `k`: behind the end of another and all of the white space that
follows it. -/
structure SentenceStartsAt (t : Text) (k : Nat) : Prop where
  le : k ≤ t.length
  closes : ClosesSentence (t.take k)
  next : ∀ c ∈ (t.drop k).head?, isSpace c = false

namespace SentenceStartsAt

variable {k : Nat}

theorem one_lt (h : t.SentenceStartsAt k) : 1 < k := by
  have hlen := h.closes.one_lt_length
  rw [List.length_take] at hlen
  omega

theorem exists_space (h : t.SentenceStartsAt k) :
    ∃ j c, k = j + 1 ∧ t[j]? = some c ∧ isSpace c = true := by
  obtain ⟨before, c, htake, hspace⟩ := h.closes.exists_eq_concat
  have hlen := congrArg List.length htake
  rw [List.length_take, Nat.min_eq_left h.le, List.length_append, List.length_singleton] at hlen
  have hlt : before.length < k := by omega
  refine ⟨before.length, c, hlen, ?_, hspace⟩
  rw [← List.getElem?_take_of_lt hlt, htake, List.getElem?_concat_length]

theorem spaces_lt (h : t.SentenceStartsAt k) : (t.takeWhile isSpace).length < k := by
  obtain ⟨c, hc, hnot⟩ := h.closes.exists_not_isSpace
  by_contra hle
  -- what stands before the start would be spaces only, and no space ends a sentence
  have hspaces : t.take k <+: t.takeWhile isSpace :=
    List.prefix_of_prefix_length_le (List.take_prefix k t) (List.takeWhile_prefix _)
      (by rw [List.length_take]; omega)
  have hspace := List.mem_takeWhile_imp (hspaces.subset hc)
  rw [hnot] at hspace
  exact Bool.false_ne_true hspace

end SentenceStartsAt

theorem sentenceStartsAt_succ_iff {k : Nat} :
    SentenceStartsAt (c :: t) (k + 1) ↔
      (endsSentence c = true ∧ t.takeWhile isSpace ≠ [] ∧ k = (t.takeWhile isSpace).length) ∨
        t.SentenceStartsAt k := by
  constructor
  · rintro ⟨hle, hcloses, hnext⟩
    rw [List.length_cons, Nat.add_le_add_iff_right] at hle
    rw [List.take_succ_cons, closesSentence_cons_iff] at hcloses
    rw [List.drop_succ_cons] at hnext
    -- `c` ends the sentence, or a later character does
    rcases hcloses with ⟨hend, hne, hspaces⟩ | hcloses
    · obtain ⟨hrun, -⟩ := span_iff.mpr ⟨(List.take_append_drop k t).symm, hspaces, hnext⟩
      refine .inl ⟨hend, hrun ▸ hne, ?_⟩
      rw [hrun, List.length_take, Nat.min_eq_left hle]
    · exact .inr ⟨hle, hcloses, hnext⟩
  · rintro (⟨hend, hne, hk⟩ | ⟨hle, hcloses, hnext⟩)
    · obtain ⟨hparts, hspaces, hnext⟩ := span_iff (t := t) (p := isSpace).mp ⟨rfl, rfl⟩
      generalize t.takeWhile isSpace = run at *
      generalize t.dropWhile isSpace = rest at *
      subst hk hparts
      refine ⟨by simp, ?_, ?_⟩
      · rw [List.take_succ_cons, List.take_left, closesSentence_cons_iff]
        exact .inl ⟨hend, hne, hspaces⟩
      · rwa [List.drop_succ_cons, List.drop_left]
    · exact ⟨Nat.succ_le_succ hle, closesSentence_cons_iff.mpr (.inr hcloses), hnext⟩

end Text

theorem exists_sentenceStartsAt_cons_iff {start i : Nat} :
    (∃ k, i = start + k ∧ Text.SentenceStartsAt (c :: t) k) ↔
      (endsSentence c = true ∧ t.takeWhile Text.isSpace ≠ [] ∧
        i = start + 1 + (t.takeWhile Text.isSpace).length) ∨
      ∃ k, i = start + 1 + k ∧ t.SentenceStartsAt k := by
  constructor
  · rintro ⟨_ | k, rfl, hk⟩
    · exact absurd hk.one_lt (by decide)
    · rcases Text.sentenceStartsAt_succ_iff.mp hk with ⟨hend, hne, rfl⟩ | hk
      · exact .inl ⟨hend, hne, by omega⟩
      · exact .inr ⟨k, by omega, hk⟩
  · rintro (⟨hend, hne, rfl⟩ | ⟨k, rfl, hk⟩)
    · exact ⟨(t.takeWhile Text.isSpace).length + 1, by omega,
        Text.sentenceStartsAt_succ_iff.mpr (.inl ⟨hend, hne, rfl⟩)⟩
    · exact ⟨k + 1, by omega, Text.sentenceStartsAt_succ_iff.mpr (.inr hk)⟩

theorem mem_sentenceStarts_iff {start i : Nat} :
    i ∈ sentenceStarts start t ↔ ∃ k, i = start + k ∧ t.SentenceStartsAt k := by
  fun_induction sentenceStarts start t with
  | case1 start c d cs later hend ih =>
    rw [Bool.and_eq_true] at hend
    rw [exists_sentenceStartsAt_cons_iff, List.mem_cons]
    exact or_congr (by simp [hend]) ih
  | case2 start c d cs later hend ih =>
    rw [exists_sentenceStartsAt_cons_iff]
    refine ih.trans (or_iff_right fun ⟨hc, hne, _⟩ => hend ?_).symm
    rw [hc, Bool.true_and]
    by_contra hspace
    exact hne (List.takeWhile_cons_of_neg hspace)
  | case3 t start hshort =>
    refine iff_of_false List.not_mem_nil fun ⟨k, _, hk⟩ => ?_
    have hlen := Nat.lt_of_lt_of_le hk.one_lt hk.le
    rcases t with _ | ⟨c, _ | ⟨d, cs⟩⟩
    · simp at hlen
    · simp at hlen
    · exact hshort c d cs rfl

theorem pairwise_sentenceStarts (start : Nat) (t : Text) :
    (sentenceStarts start t).Pairwise (· < ·) := by
  fun_induction sentenceStarts start t with
  | case1 start c d cs later hend ih =>
    refine List.pairwise_cons.mpr ⟨fun i hi => ?_, ih⟩
    -- a later start lies behind the spaces that follow the end of this sentence
    obtain ⟨k, rfl, hk⟩ := mem_sentenceStarts_iff.mp hi
    exact Nat.add_lt_add_left hk.spaces_lt _
  | case2 start c d cs later hend ih => exact ih
  | case3 => exact List.Pairwise.nil

theorem getLast?_sentenceStarts_eq_none_iff {start : Nat} :
    (sentenceStarts start t).getLast? = none ↔ ∀ k, ¬ t.SentenceStartsAt k := by
  rw [List.getLast?_eq_none_iff, List.eq_nil_iff_forall_not_mem]
  constructor
  · intro h k hk
    exact h _ (mem_sentenceStarts_iff.mpr ⟨k, rfl, hk⟩)
  · intro h i hi
    obtain ⟨k, -, hk⟩ := mem_sentenceStarts_iff.mp hi
    exact h k hk

theorem getLast?_sentenceStarts_eq_some {start i : Nat}
    (h : (sentenceStarts start t).getLast? = some i) :
    ∃ k, i = start + k ∧ t.SentenceStartsAt k ∧ ∀ j, t.SentenceStartsAt j → j ≤ k := by
  obtain ⟨k, rfl, hk⟩ := mem_sentenceStarts_iff.mp (List.mem_of_getLast? h)
  refine ⟨k, rfl, hk, fun j hj => ?_⟩
  have hmem : start + j ∈ sentenceStarts start t := mem_sentenceStarts_iff.mpr ⟨j, rfl, hj⟩
  have hle := ((pairwise_sentenceStarts start t).imp Nat.le_of_lt).rel_getLast hmem
  have hlast := List.getLast?_eq_some_getLast (List.ne_nil_of_mem hmem)
  rw [← Option.some.inj (h.symm.trans hlast)] at hle
  exact Nat.le_of_add_le_add_left hle

end ArticleArchive
