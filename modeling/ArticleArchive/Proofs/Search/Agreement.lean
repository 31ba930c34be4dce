import ArticleArchive.Proofs.Calendar.Ends
import ArticleArchive.Proofs.Highlight.Matches
import ArticleArchive.Proofs.Query.Reading
import ArticleArchive.Ranking

namespace ArticleArchive

namespace Text

theorem countOccurrences_pos_iff_occursIn (needle t : Text) :
    0 < countOccurrences needle t ↔ occursIn needle t = true := by
  rw [occursIn_iff]
  by_cases hne : needle = []
  · simp [countOccurrences, hne]
  · exact countOccurrences_pos_iff hne

end Text

theorem SearchText.score_pos_iff {s : SearchText} {term : Text} :
    0 < s.score term ↔ s.contains term = true := by
  have htitle := Text.countOccurrences_pos_iff_occursIn term s.title
  have hsummary := Text.countOccurrences_pos_iff_occursIn term s.summary
  have hcontent := Text.countOccurrences_pos_iff_occursIn term s.content
  rw [contains, Bool.or_eq_true, Bool.or_eq_true, ← htitle, ← hcontent, ← hsummary, score]
  omega

theorem score_le_relevance {terms : List Text} {term : Text} (a : Article) (h : term ∈ terms) :
    (SearchText.ofArticle a).score (Text.fold term) ≤ relevance terms a := by
  unfold relevance
  induction terms with
  | nil => simp at h
  | cons t ts ih =>
    rw [List.foldr_cons]
    rcases List.mem_cons.mp h with rfl | h
    · exact Nat.le_add_right _ _
    · exact Nat.le_trans (ih h) (Nat.le_add_left _ _)

theorem exists_mem_distinctFolds {seen ts : List Text} {t : Text} (h : t ∈ ts) :
    Text.fold t ∈ seen ∨ ∃ u ∈ distinctFolds seen ts, Text.fold u = Text.fold t := by
  induction ts generalizing seen with
  | nil => simp at h
  | cons v ts ih =>
    unfold distinctFolds
    dsimp only
    split
    · rename_i hseen
      rcases List.mem_cons.mp h with rfl | h
      · exact .inl (by simpa using hseen)
      · exact ih h
    · rcases List.mem_cons.mp h with rfl | h
      · exact .inr ⟨t, List.mem_cons_self, rfl⟩
      · rcases @ih (Text.fold v :: seen) h with hseen | ⟨u, hu, hfold⟩
        · rcases List.mem_cons.mp hseen with hv | hseen
          · exact .inr ⟨v, List.mem_cons_self, hv.symm⟩
          · exact .inl hseen
        · exact .inr ⟨u, List.mem_cons_of_mem v hu, hfold⟩

namespace Query

theorem exists_mem_terms {q : Query} {t : Term} (h : .term t ∈ q.required) :
    ∃ u ∈ q.terms, Text.fold u = Text.fold t.text := by
  have hclause : Clause.term t ∈ q.clauses := by
    simp only [clauses, List.mem_append, List.mem_flatMap]
    exact .inl (.inl ⟨_, h, List.mem_singleton_self _⟩)
  have htext : t.text ∈ q.clauses.filterMap Clause.freeText? :=
    List.mem_filterMap.mpr ⟨_, hclause, rfl⟩
  exact (exists_mem_distinctFolds htext).resolve_left List.not_mem_nil

theorem all_eq_true {α : Type} {test : α → Except MatchError Bool} {xs : List α}
    (h : all test xs = .ok true) : ∀ x ∈ xs, test x = .ok true := by
  induction xs with
  | nil => simp
  | cons x xs ih =>
    obtain ⟨b, hb, h⟩ := bind_eq_ok_iff.mp h
    cases b with
    | false => simp [pure, Except.pure] at h
    | true => exact List.forall_mem_cons.mpr ⟨hb, ih h⟩

theorem accepts_of_mem_execute {q : Query} {corpus found : List Article}
    (h : q.execute corpus = .ok found) : ∀ a ∈ found, q.accepts a = .ok true := by
  induction corpus generalizing found with
  | nil =>
    obtain rfl := Except.ok.inj h
    simp
  | cons a as ih =>
    obtain ⟨b, hb, h⟩ := bind_eq_ok_iff.mp h
    obtain ⟨rest, hrest, h⟩ := bind_eq_ok_iff.mp h
    obtain rfl := Except.ok.inj h
    cases b with
    | false => exact ih hrest
    | true => exact List.forall_mem_cons.mpr ⟨hb, ih hrest⟩

theorem eq_ok_of_guarded {x y : Except MatchError Bool}
    (h : (x >>= fun b => if b = true then y else .ok false) = .ok true) :
    x = .ok true ∧ y = .ok true := by
  obtain ⟨b, hb, h⟩ := bind_eq_ok_iff.mp h
  cases b with
  | false => simp at h
  | true => exact ⟨hb, h⟩

theorem accepts_required {q : Query} {a : Article} (h : q.accepts a = .ok true) {c : Clause}
    (hc : c ∈ q.required) : c.accepts a (SearchText.ofArticle a) = .ok true := by
  rw [accepts_eq] at h
  dsimp only at h
  split at h
  · obtain ⟨-, h⟩ := eq_ok_of_guarded h
    obtain ⟨-, h⟩ := eq_ok_of_guarded h
    obtain ⟨hrequired, -⟩ := eq_ok_of_guarded h
    exact all_eq_true hrequired c hc
  · simp [pure, Except.pure] at h

/-- For a term whose fold is not empty it is the same that an article holds it, that it ranks above
zero for it, and that the term is marked in its title or in the readable part of its content or its
summary. What a query finds by a word or phrase of its top level has a relevance of one or more for
the terms of the query. -/
theorem found_iff_ranked_iff_marked :
    (∀ (a : Article) (term : Text), Text.fold term ≠ [] →
      ((SearchText.ofArticle a).contains (Text.fold term) = true ↔ 0 < relevance [term] a) ∧
      ((SearchText.ofArticle a).contains (Text.fold term) = true ↔
        highlightSpans a.title [term] ≠ [] ∨ highlightSpans (stripMarkup a.content) [term] ≠ [] ∨
          highlightSpans (stripMarkup a.summary) [term] ≠ [])) ∧
    ∀ (q : Query) (corpus found : List Article) (t : Term), .term t ∈ q.required →
      q.execute corpus = .ok found → ∀ a ∈ found, 1 ≤ relevance q.terms a := by
  constructor
  · intro a term hne
    have hspans (t : Text) : highlightSpans t [term] ≠ [] ↔ Text.fold term <:+: Text.fold t := by
      simp [highlightSpans_ne_nil_iff, hne]
    constructor
    · rw [← SearchText.score_pos_iff]
      rfl
    · rw [hspans, hspans, hspans]
      exact SearchText.contains_ofArticle_iff
  · intro q corpus found t ht hfound a ha
    -- the term itself may have been dropped for another one `u` of its fold
    obtain ⟨u, hu, hfold⟩ := exists_mem_terms ht
    have haccepts := accepts_required (accepts_of_mem_execute hfound a ha) ht
    have hcontains : (SearchText.ofArticle a).contains (Text.fold u) = true := by
      rw [hfold]
      exact Except.ok.inj haccepts
    exact Nat.le_trans (SearchText.score_pos_iff.mpr hcontains) (score_le_relevance a hu)

/-- A sharp s folds to two characters, and one of them is enough for a search, the relevance and a
mark. -/
theorem found_within_sharp_s :
    let a : Article :=
      { id := 1, title := "Maß".toList, content := [], summary := [], category := none,
        createdAt := .midnight .first, viewCount := 0, localizations := [] }
    ∃ q, compile "s".toList = .ok q ∧ Clause.term ⟨['s'], false⟩ ∈ q.required ∧
      q.execute [a] = .ok [a] ∧ 1 ≤ relevance q.terms a ∧ 0 < relevance [['s']] a ∧
      (highlightSpans a.title [['s']] ≠ [] ∨ highlightSpans (stripMarkup a.content) [['s']] ≠ [] ∨
        highlightSpans (stripMarkup a.summary) [['s']] ≠ []) := by
  intro a
  let q : Query := { required := [.term ⟨['s'], false⟩] }
  have hscan : Lexeme.scanFrom 0 "s".toList = .ok [⟨.word ['s'], 0, 1⟩] :=
    Lexeme.scanFrom_token_ok rfl rfl rfl (Lexeme.scanFrom_nil 1)
  have hbalanced : Text.Balanced "s".toList := rfl
  have hq : compile "s".toList = .ok q :=
    compile_of_ofText (Lexeme.ofText_ok hbalanced hscan) rfl rfl
  have hterm : Clause.term ⟨['s'], false⟩ ∈ q.required := List.mem_singleton_self _
  have hcontains : (SearchText.ofArticle a).contains (Text.fold ['s']) = true := by decide +kernel
  have hfound : q.execute [a] = .ok [a] := rfl
  obtain ⟨hterms, hqueries⟩ := found_iff_ranked_iff_marked
  obtain ⟨hranked, hmarked⟩ := hterms a ['s'] (by decide)
  exact ⟨q, hq, hterm, hfound, hqueries q _ _ _ hterm hfound a (List.mem_singleton_self a),
    hranked.mp hcontains, hmarked.mp hcontains⟩

end Query

end ArticleArchive
