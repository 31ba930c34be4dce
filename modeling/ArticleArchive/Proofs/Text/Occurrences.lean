import ArticleArchive.Text.Fold
import ArticleArchive.Text.Occurrence

namespace ArticleArchive.Text

variable {needle t : Text}

theorem mem_occurrencesFrom_iff {i start : Nat} (hne : needle ≠ []) :
    i ∈ occurrencesFrom needle start t ↔ ∃ k, i = start + k ∧ needle <+: t.drop k := by
  induction t generalizing start with
  | nil => simp [occurrencesFrom, hne]
  | cons c cs ih =>
    have hfirst : (∃ k, i = start + k ∧ needle <+: (c :: cs).drop k) ↔
        (i = start ∧ needle <+: c :: cs) ∨ i ∈ occurrencesFrom needle (start + 1) cs := by
      rw [ih]
      constructor
      · rintro ⟨_ | k, rfl, h⟩
        · exact .inl ⟨rfl, h⟩
        · exact .inr ⟨k, by omega, h⟩
      · rintro (⟨rfl, h⟩ | ⟨k, rfl, h⟩)
        · exact ⟨0, rfl, h⟩
        · exact ⟨k + 1, by omega, h⟩
    rw [hfirst, occurrencesFrom]
    split
    · rename_i hp
      simp [List.isPrefixOf_iff_prefix.mp hp]
    · rename_i hp
      simp [mt List.isPrefixOf_iff_prefix.mpr hp]

theorem mem_occurrences_iff {i : Nat} (hne : needle ≠ []) :
    i ∈ occurrences needle t ↔ needle <+: t.drop i := by
  simp [occurrences, mem_occurrencesFrom_iff hne]

theorem exists_mem_occurrences_iff (hne : needle ≠ []) :
    (∃ i, i ∈ occurrences needle t) ↔ needle <:+: t := by
  simp only [mem_occurrences_iff hne]
  constructor
  · rintro ⟨i, h⟩
    exact h.isInfix.trans (List.drop_suffix i t).isInfix
  · rintro ⟨before, after, rfl⟩
    exact ⟨before.length, by simp⟩

theorem countFrom_zero_pos_iff (hne : needle ≠ []) : 0 < countFrom needle 0 t ↔ needle <:+: t := by
  induction t with
  | nil => simp [countFrom, hne]
  | cons c cs ih =>
    rw [countFrom, List.infix_cons_iff, ← ih]
    split
    · rename_i hp
      simp [List.isPrefixOf_iff_prefix.mp hp]
    · rename_i hp
      simp [mt List.isPrefixOf_iff_prefix.mpr hp]

theorem countOccurrences_pos_iff (hne : needle ≠ []) :
    0 < countOccurrences needle t ↔ needle <:+: t := by
  rw [countOccurrences, if_neg (by simpa using hne), countFrom_zero_pos_iff hne]

theorem fold_isInfix {s t : Text} (h : s <:+: t) : fold s <:+: fold t := by
  obtain ⟨before, after, rfl⟩ := h
  exact ⟨fold before, fold after, by simp⟩

end ArticleArchive.Text
