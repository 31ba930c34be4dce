import ArticleArchive.Proofs.Service.Documents

namespace ArticleArchive

theorem mem_of_mem_slice {α : Type} {xs : List α} {start stop : Int} {x : α}
    (h : x ∈ slice xs start stop) : x ∈ xs :=
  List.mem_of_mem_drop (List.mem_of_mem_take h)

theorem SearchOutcome.ofText_eq_ok {raw : Text} {corpus : List Article} {o : SearchOutcome}
    (h : ofText raw corpus = .ok o) :
    Query.isBlankText raw = true ∧ o = {} ∨
      ∃ q found, Query.compile raw = .ok q ∧ q.execute corpus = .ok found ∧
        arrange? q.sort q.terms found = some o.articles := by
  unfold ofText at h
  split at h
  · rename_i hblank
    exact .inl ⟨hblank, (Except.ok.inj h).symm⟩
  · split at h
    · simp at h
    · rename_i q hq
      obtain ⟨found, hfound, harrange, -⟩ := ofQuery_eq_ok h
      exact .inr ⟨q, found, hq, hfound, harrange⟩

theorem SearchOutcome.mem_of_ofText {raw : Text} {corpus : List Article} {o : SearchOutcome}
    (h : ofText raw corpus = .ok o) {x : Article} (hx : x ∈ o.articles) : x ∈ corpus := by
  rcases ofText_eq_ok h with ⟨-, rfl⟩ | ⟨q, found, -, hfound, harrange⟩
  · simp at hx
  · exact (Query.execute_sublist hfound).subset ((arrange?_perm harrange).subset hx)

namespace SearchHit

theorem ofArticle_eq_ok_iff {terms : List Text} {x : Article} {hit : SearchHit} :
    ofArticle terms x = .ok hit ↔ ∃ d, Document.ofArticle x false = .ok d ∧
      hit = ⟨d, style.highlight x.title terms, style.highlightSnippet
        (if x.summary.isEmpty then x.content else x.summary) terms snippetLength⟩ := by
  rw [ofArticle, map_eq_ok_iff]
  exact exists_congr fun d => and_congr_right fun _ => eq_comm

theorem ofArticle_eq_error_iff {terms : List Text} {x : Article} {es : List ShapeError} :
    ofArticle terms x = .error es ↔ Document.ofArticle x false = .error es := by
  rw [ofArticle]
  cases Document.ofArticle x false <;> simp [Except.map]

variable {terms : List Text} {xs : List Article}

theorem mapM_eq_ok (h : ∀ x ∈ xs, x.IsFormed) {hits : List SearchHit}
    (hhits : xs.mapM (ofArticle terms) = .ok hits) :
    (∀ x ∈ xs, x.IsServable) ∧ List.Forall₂ (fun x hit => hit.document.Carries x) xs hits := by
  have hall := mapM_eq_ok_iff.mp hhits
  clear hhits
  induction hall with
  | nil => exact ⟨by simp, .nil⟩
  | @cons x hit xs hits hx _ ih =>
    obtain ⟨hformed, h⟩ := List.forall_mem_cons.mp h
    obtain ⟨hs, hcarries⟩ := ih h
    obtain ⟨d, hd, rfl⟩ := ofArticle_eq_ok_iff.mp hx
    rcases hformed.ofArticle_cases with ⟨hservable, d', hd', hc⟩ | ⟨-, m, v, hm⟩
    · obtain rfl : d = d' := Except.ok.inj (hd.symm.trans hd')
      exact ⟨List.forall_mem_cons.mpr ⟨hservable, hs⟩, .cons hc hcarries⟩
    · rw [hd] at hm
      simp at hm

theorem mapM_eq_error (h : ∀ x ∈ xs, x.IsFormed) {es : List ShapeError}
    (hes : xs.mapM (ofArticle terms) = .error es) :
    (∃ x ∈ xs, ¬ x.IsServable) ∧ ∃ m v, es = [⟨categoryIdPath, m, v⟩] := by
  obtain ⟨x, hx, he⟩ := exists_of_mapM_eq_error hes
  have he := ofArticle_eq_error_iff.mp he
  rcases (h x hx).ofArticle_cases with ⟨-, d, hd, -⟩ | ⟨hs, m, v, hm⟩
  · rw [hd] at he
    simp at he
  · exact ⟨⟨x, hx, hs⟩, m, v, Except.error.inj (he.symm.trans hm)⟩

end SearchHit

namespace Archive

/-- The articles of an outcome on the page that is asked for. -/
def onPage (a : Archive) (r : SearchRequest) (o : SearchOutcome) : List Article :=
  Pagination.window (max r.page 1) (a.settings.appliedLimit r.limit) o.articles

/-- Every article was made of a draft, read from a file or handed in. -/
def IsMade (a : Archive) : Prop :=
  ∀ x ∈ a.articles, ∃ d, Article.ofDraft d = .ok x

variable {a : Archive} {now : DateTime} {r : SearchRequest} {o : SearchOutcome}

theorem outcome_eq_ok_iff : a.outcome now r = .ok o ↔
    SearchOutcome.ofText r.query
      (a.visible now r.language (r.includeFuture.getD a.settings.includeFuture)) = .ok o := by
  unfold outcome
  dsimp only
  split <;> simp_all

theorem exists_of_outcome (h : a.outcome now r = .ok o) {x : Article} (hx : x ∈ o.articles) :
    ∃ y ∈ a.articles, y.localized r.language = x := by
  have hvisible := SearchOutcome.mem_of_ofText (outcome_eq_ok_iff.mp h) hx
  obtain ⟨y, hy, hyx⟩ := List.mem_map.mp hvisible
  exact ⟨y, (List.mem_filter.mp hy).1, hyx⟩

theorem IsMade.isFormed_of_onPage (ha : a.IsMade) (h : a.outcome now r = .ok o) :
    ∀ x ∈ a.onPage r o, x.IsFormed := by
  intro x hx
  obtain ⟨y, hy, rfl⟩ := exists_of_outcome h (mem_of_mem_slice hx)
  obtain ⟨d, hd⟩ := ha y hy
  exact (Article.isFormed_of_ofDraft hd).localized r.language

theorem outcome_ne_unfit (es : List ShapeError) : a.outcome now r ≠ .error (.unfit es) := by
  intro h
  unfold outcome at h
  dsimp only at h
  split at h <;> simp at h

theorem search_eq_unfit_iff {es : List ShapeError} :
    a.search now r = .error (.unfit es) ↔ ∃ o, a.outcome now r = .ok o ∧
      (a.onPage r o).mapM (SearchHit.ofArticle o.terms) = .error es := by
  rw [search, bind_eq_error_iff]
  constructor
  · rintro (h | ⟨o, ho, h⟩)
    · exact absurd h (outcome_ne_unfit es)
    · rcases bind_eq_error_iff.mp h with h | ⟨hits, -, h⟩
      · obtain ⟨es', hes, he⟩ := mapError_eq_error_iff.mp h
        obtain rfl := ArchiveError.unfit.inj he
        exact ⟨o, ho, hes⟩
      · split at h
        · simp [throw, throwThe, MonadExceptOf.throw] at h
        · simp [pure, Except.pure] at h
  · rintro ⟨o, ho, hes⟩
    exact .inr ⟨o, ho, bind_eq_error_iff.mpr (.inl (mapError_eq_error_iff.mpr ⟨es, hes, rfl⟩))⟩

theorem exists_of_search_eq_ok {p : SearchPage} (h : a.search now r = .ok p) :
    ∃ o, a.outcome now r = .ok o ∧
      (a.onPage r o).mapM (SearchHit.ofArticle o.terms) = .ok p.results := by
  obtain ⟨o, ho, h⟩ := bind_eq_ok_iff.mp h
  obtain ⟨hits, hhits, h⟩ := bind_eq_ok_iff.mp h
  split at h
  · simp [throw, throwThe, MonadExceptOf.throw] at h
  · obtain rfl := Except.ok.inj h
    exact ⟨o, ho, mapError_eq_ok_iff.mp hhits⟩

theorem pagination_of_search (h : a.search now r = .ok p) :
    ∃ o, a.outcome now r = .ok o ∧ p.pagination.total = o.articles.length ∧
      p.pagination.limit = a.settings.appliedLimit r.limit := by
  obtain ⟨o, ho, hp⟩ := bind_eq_ok_iff.mp h
  obtain ⟨hits, -, hp⟩ := bind_eq_ok_iff.mp hp
  split at hp
  · simp [throw, throwThe, MonadExceptOf.throw] at hp
  · obtain rfl := Except.ok.inj hp
    exact ⟨o, ho, rfl, rfl⟩

/-- An article has a document, which carries all that the article holds, exactly if the identifier
of its category is null or stands for an integer; otherwise that identifier is the only mismatch. A
search fails for want of a document exactly if an article of the latter kind is on its page, and a
page that it gives out carries the articles found. This is about texts of characters: a title with
half a surrogate pair in it would be a mismatch as well, and is no `Text`. -/
theorem search_unfit_iff_category_unservable (ha : a.IsMade) :
    (∀ x ∈ a.articles,
      (x.IsServable ∧ ∃ d, Document.ofArticle x false = .ok d ∧ d.Carries x) ∨
        ¬ x.IsServable ∧ ∃ m v, Document.ofArticle x false = .error [⟨categoryIdPath, m, v⟩]) ∧
    ∀ (now : DateTime) (r : SearchRequest),
      ((∃ es, a.search now r = .error (.unfit es)) ↔
        ∃ o, a.outcome now r = .ok o ∧
          ∃ x ∈ a.articles, ¬ x.IsServable ∧ x.localized r.language ∈ a.onPage r o) ∧
      (∀ es, a.search now r = .error (.unfit es) → ∃ m v, es = [⟨categoryIdPath, m, v⟩]) ∧
      ∀ p, a.search now r = .ok p → ∃ o, a.outcome now r = .ok o ∧
        List.Forall₂ (fun x hit => hit.document.Carries x) (a.onPage r o) p.results := by
  refine ⟨fun x hx => ?_, fun now r => ⟨⟨?_, ?_⟩, fun es hes => ?_, fun p hp => ?_⟩⟩
  · obtain ⟨d, hd⟩ := ha x hx
    exact (Article.isFormed_of_ofDraft hd).ofArticle_cases
  · rintro ⟨es, hes⟩
    obtain ⟨o, ho, hes⟩ := search_eq_unfit_iff.mp hes
    obtain ⟨⟨x, hx, hs⟩, -⟩ := SearchHit.mapM_eq_error (ha.isFormed_of_onPage ho) hes
    obtain ⟨y, hy, rfl⟩ := exists_of_outcome ho (mem_of_mem_slice hx)
    exact ⟨o, ho, y, hy, (y.isServable_localized_iff r.language).not.mp hs, hx⟩
  · rintro ⟨o, ho, x, -, hs, hx⟩
    cases hhits : (a.onPage r o).mapM (SearchHit.ofArticle o.terms) with
    | error es => exact ⟨es, search_eq_unfit_iff.mpr ⟨o, ho, hhits⟩⟩
    | ok hits =>
      -- had all of the page fitted, this article would as well
      have hall := (SearchHit.mapM_eq_ok (ha.isFormed_of_onPage ho) hhits).1
      exact absurd ((x.isServable_localized_iff r.language).mp (hall _ hx)) hs
  · obtain ⟨o, ho, hes⟩ := search_eq_unfit_iff.mp hes
    exact (SearchHit.mapM_eq_error (ha.isFormed_of_onPage ho) hes).2
  · obtain ⟨o, ho, hhits⟩ := exists_of_search_eq_ok hp
    exact ⟨o, ho, (SearchHit.mapM_eq_ok (ha.isFormed_of_onPage ho) hhits).2⟩

/-- A category whose identifier is a word is accepted, and a search that finds it fails. -/
theorem search_unfit_of_word_category :
    let fields : List (Text × Json) :=
      [(Draft.idKey, .int 1), (Draft.titleKey, .str "t".toList),
        (Draft.createdAtKey, .str "2024-01-01".toList),
        (Draft.categoryKey, .obj [(Draft.idKey, .str "x".toList), (Draft.nameKey, .str "n".toList)])]
    ∃ x, Article.ofFields fields = .ok x ∧ (∀ d, Document.ofArticle x false ≠ .ok d) ∧
      ∃ es, Archive.search { articles := [x] } x.createdAt { query := "views:0".toList } =
        .error (.unfit es) := by
  intro fields
  let day : Date := ⟨2024, 1, 1, by decide, by decide, by decide⟩
  let x : Article :=
    { id := 1, title := "t".toList, content := [], summary := [],
      category := some ⟨.str "x".toList, "n".toList⟩, createdAt := .midnight day, viewCount := 0,
      localizations := [] }
  let q : Query := { views := [⟨.views, .eq, "0".toList⟩] }
  have hx : Article.ofFields fields = .ok x := rfl
  have hmade : IsMade { articles := [x] } := by
    intro y hy
    obtain rfl : y = x := by simpa using hy
    exact ⟨Draft.ofFields fields, hx⟩
  have hservable : ¬ x.IsServable := by
    intro h
    rcases h _ rfl with hnull | ⟨i, hi⟩
    · simp at hnull
    · have hword : Shape.integer (.str "x".toList) = .error .intParsing := rfl
      rw [hword] at hi
      simp at hi
  have hq : Query.compile "views:0".toList = .ok q := Query.compile_views rfl
  have hexecute : q.execute [x] = .ok [x] := rfl
  have houtcome : Archive.outcome { articles := [x] } x.createdAt { query := "views:0".toList } =
      .ok { query := some q, articles := [x] } := by
    have hvisible : Archive.visible { articles := [x] } x.createdAt [] false = [x] := by
      simp [visible, Article.localized, Article.localization?]
    have harrange : arrange? q.sort q.terms [x] = some [x] := by simp [arrange?, arrangeBy?, q]
    have htext : SearchOutcome.ofText "views:0".toList [x] =
        .ok { query := some q, articles := [x] } := by
      rw [Query.ofText_of_compile rfl hq, SearchOutcome.ofQuery, hexecute]
      dsimp only [Except.mapError, bind, Except.bind]
      rw [harrange]
      rfl
    unfold outcome
    dsimp only [Option.getD]
    rw [hvisible, htext]
  obtain ⟨hdocuments, hsearches⟩ := search_unfit_iff_category_unservable hmade
  refine ⟨x, hx, fun d hd => ?_, ?_⟩
  · rcases hdocuments x List.mem_cons_self with ⟨h, -⟩ | ⟨-, m, v, hm⟩
    · exact hservable h
    · rw [hd] at hm
      simp at hm
  · exact (hsearches _ _).1.mpr
      ⟨_, houtcome, x, List.mem_cons_self, hservable, List.mem_cons_self⟩

end Archive

end ArticleArchive
