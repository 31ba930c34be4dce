import Mathlib.Data.List.Nodup

namespace ArticleArchive

variable {α κ : Type} [DecidableEq κ] {key : α → κ} {l : List α} {a : α}

/-- The elements of a list that no element before them has the key of. -/
def firstsBy (key : α → κ) : List α → List α
  | [] => []
  | a :: as => a :: (firstsBy key as).filter fun b => key b ≠ key a

theorem firstsBy_sublist (key : α → κ) (l : List α) : (firstsBy key l).Sublist l := by
  induction l with
  | nil => exact .refl []
  | cons a l ih => exact (List.filter_sublist.trans ih).cons_cons a

theorem exists_mem_firstsBy (key : α → κ) (h : a ∈ l) : ∃ b ∈ firstsBy key l, key b = key a := by
  induction l with
  | nil => simp at h
  | cons c l ih =>
    by_cases hc : key a = key c
    · exact ⟨c, List.mem_cons_self, hc.symm⟩
    · have hl : a ∈ l := (List.mem_cons.mp h).resolve_left fun he => hc (he ▸ rfl)
      obtain ⟨b, hb, hkey⟩ := ih hl
      have hne : key b ≠ key c := hkey ▸ hc
      exact ⟨b, List.mem_cons_of_mem c (List.mem_filter.mpr ⟨hb, by simpa using hne⟩), hkey⟩

theorem nodup_map_firstsBy (key : α → κ) (l : List α) : ((firstsBy key l).map key).Nodup := by
  induction l with
  | nil => exact List.nodup_nil
  | cons a l ih =>
    rw [firstsBy, List.map_cons, List.nodup_cons]
    refine ⟨?_, ih.sublist (List.filter_sublist.map key)⟩
    simp

theorem mem_firstsBy_iff :
    a ∈ firstsBy key l ↔
      ∃ before after, l = before ++ a :: after ∧ ∀ b ∈ before, key b ≠ key a := by
  induction l with
  | nil => simp [firstsBy]
  | cons c l ih =>
    rw [firstsBy, List.mem_cons, List.mem_filter, ih, decide_eq_true_iff]
    constructor
    · rintro (rfl | ⟨⟨before, after, rfl, hbefore⟩, hc⟩)
      · exact ⟨[], l, rfl, by simp⟩
      · exact ⟨c :: before, after, rfl, List.forall_mem_cons.mpr ⟨Ne.symm hc, hbefore⟩⟩
    · rintro ⟨before, after, hl, hbefore⟩
      cases before with
      | nil =>
        obtain ⟨rfl, -⟩ := List.cons.inj hl
        exact .inl rfl
      | cons d before =>
        obtain ⟨rfl, rfl⟩ := List.cons.inj hl
        obtain ⟨hd, hbefore⟩ := List.forall_mem_cons.mp hbefore
        exact .inr ⟨⟨before, after, rfl, hbefore⟩, Ne.symm hd⟩

theorem firstsBy_concat_of_notMem (h : key a ∉ l.map key) :
    firstsBy key (l ++ [a]) = firstsBy key l ++ [a] := by
  induction l with
  | nil => rfl
  | cons c l ih =>
    rw [List.map_cons, List.mem_cons, not_or] at h
    rw [List.cons_append, firstsBy, ih h.2, firstsBy, List.filter_append]
    simp [h.1]

theorem mem_map_firstsBy_iff {k : κ} : k ∈ (firstsBy key l).map key ↔ k ∈ l.map key := by
  constructor
  · exact fun h => ((firstsBy_sublist key l).map key).subset h
  · intro h
    obtain ⟨a, ha, rfl⟩ := List.mem_map.mp h
    obtain ⟨b, hb, hkey⟩ := exists_mem_firstsBy key ha
    exact List.mem_map.mpr ⟨b, hb, hkey⟩

end ArticleArchive
