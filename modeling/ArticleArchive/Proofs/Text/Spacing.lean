import ArticleArchive.Proofs.Text.Trim

namespace ArticleArchive.Text

/-- The spaces of the text are U+0020, and no two of them stand side by side. -/
structure IsCollapsed (t : Text) : Prop where
  spaces : ∀ c ∈ t, isSpace c = true → c = ' '
  apart : t.IsChain fun c d => isSpace c = false ∨ isSpace d = false

variable {t : Text} {p q : Char → Bool}

theorem IsCollapsed.of_isInfix {s : Text} (h : IsCollapsed t) (hs : s <:+: t) : IsCollapsed s where
  spaces c hc := h.spaces c (hs.subset hc)
  apart := List.IsChain.infix h.apart hs

theorem head_collapseSpaces (h : ∀ c ∈ t.head?, isSpace c = false) :
    ∀ c ∈ (collapseSpaces t).head?, isSpace c = false := by
  cases t with
  | nil => exact h
  | cons c cs =>
    have hc : isSpace c = false := h c rfl
    simp [collapseSpaces, hc]

theorem isCollapsed_collapseSpaces (t : Text) : IsCollapsed (collapseSpaces t) := by
  fun_induction collapseSpaces t with
  | case1 => exact ⟨by simp, .nil⟩
  | case2 c cs hc hnext ih => exact ih
  | case3 c cs hc hnext ih =>
    have hhead : ∀ d ∈ (collapseSpaces cs).head?, isSpace d = false :=
      head_collapseSpaces fun d hd => by simpa [Option.mem_def.mp hd] using hnext
    refine ⟨List.forall_mem_cons.mpr ⟨fun _ => rfl, ih.spaces⟩, ?_⟩
    exact ih.apart.cons fun d hd => .inr (hhead d hd)
  | case4 c cs hc ih =>
    rw [Bool.not_eq_true] at hc
    refine ⟨List.forall_mem_cons.mpr ⟨fun h => by simp [hc] at h, ih.spaces⟩, ?_⟩
    exact ih.apart.cons fun d _ => .inl hc

theorem IsCollapsed.collapseSpaces_eq (h : IsCollapsed t) : collapseSpaces t = t := by
  fun_induction collapseSpaces t with
  | case1 => rfl
  | case2 c cs hc hnext ih =>
    obtain ⟨d, ds, rfl⟩ : ∃ d ds, cs = d :: ds := by
      cases cs with
      | nil => simp at hnext
      | cons d ds => exact ⟨d, ds, rfl⟩
    have hd : isSpace d = true := by simpa using hnext
    simpa [hc, hd] using h.apart.rel
  | case3 c cs hc hnext ih =>
    rw [ih (h.of_isInfix (List.suffix_cons c cs).isInfix), h.spaces c List.mem_cons_self hc]
  | case4 c cs hc ih => rw [ih (h.of_isInfix (List.suffix_cons c cs).isInfix)]

theorem isCollapsed_strip_collapseSpaces (t : Text) : IsCollapsed (strip (collapseSpaces t)) :=
  (isCollapsed_collapseSpaces t).of_isInfix (trimBy_isInfix isBlank _)

theorem mem_collapseSpaces {c : Char} (h : c ∈ collapseSpaces t) : c = ' ' ∨ c ∈ t := by
  fun_induction collapseSpaces t with
  | case1 => exact .inr h
  | case2 d cs hd hnext ih => exact (ih h).imp_right (List.mem_cons_of_mem d)
  | case3 d cs hd hnext ih =>
    rcases List.mem_cons.mp h with rfl | h
    · exact .inl rfl
    · exact (ih h).imp_right (List.mem_cons_of_mem d)
  | case4 d cs hd ih =>
    rcases List.mem_cons.mp h with rfl | h
    · exact .inr List.mem_cons_self
    · exact (ih h).imp_right (List.mem_cons_of_mem d)

theorem filter_collapseSpaces (hq : ∀ c, isSpace c = true → q c = false) (t : Text) :
    (collapseSpaces t).filter q = t.filter q := by
  have hspace : q ' ' = false := hq ' ' rfl
  fun_induction collapseSpaces t with
  | case1 => rfl
  | case2 c cs hc hnext ih => rw [ih, List.filter_cons_of_neg (by simp [hq c hc])]
  | case3 c cs hc hnext ih =>
    rw [List.filter_cons_of_neg (by simp [hspace]), ih, List.filter_cons_of_neg (by simp [hq c hc])]
  | case4 c cs hc ih => rw [List.filter_cons, List.filter_cons, ih]

theorem length_collapseSpaces_le (t : Text) : (collapseSpaces t).length ≤ t.length := by
  fun_induction collapseSpaces t <;> simp only [List.length_cons, List.length_nil] <;> omega

theorem filter_trimBy (hq : ∀ c, p c = true → q c = false) (t : Text) :
    (trimBy p t).filter q = t.filter q := by
  obtain ⟨after, hparts, hafter⟩ := exists_eq_append_trimBy p t
  have hnone {s : Text} (hs : ∀ c ∈ s, p c = true) : s.filter q = [] := by
    simpa [List.filter_eq_nil_iff] using fun c hc => hq c (hs c hc)
  conv_rhs => rw [hparts, List.filter_append, List.filter_append, hnone hafter,
    hnone fun c hc => List.mem_takeWhile_imp hc, List.nil_append, List.append_nil]

end ArticleArchive.Text
