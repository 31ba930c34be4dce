import ArticleArchive.Proofs.Service.Verdict

namespace ArticleArchive

variable {ε : Type}

/-- Articles handed out one by one in a language. An article that is kept back is passed over before
it is brought into the language, which may fail. -/
def Supply.ofArticles (shown : Article → Bool) (localize : Article → Except ε Article) :
    List Article → Supply ε
  | [] => done
  | x :: xs =>
    if shown x then
      match localize x with
      | .ok y => next y (ofArticles shown localize xs)
      | .error e => failed e
    else ofArticles shown localize xs

namespace Supply

theorem ofArticles_filter (shown : Article → Bool) (localize : Article → Except ε Article)
    (xs : List Article) :
    ofArticles shown localize xs = ofArticles (fun _ => true) localize (xs.filter shown) := by
  induction xs with
  | nil => rfl
  | cons x xs ih =>
    by_cases hx : shown x = true
    · simp [ofArticles, hx, ih]
    · simp [ofArticles, hx, ih]

theorem ofArticles_ok (shown : Article → Bool) (f : Article → Article) (xs : List Article) :
    ofArticles (ε := ε) shown (fun x => .ok (f x)) xs = ofList ((xs.filter shown).map f) := by
  rw [ofArticles_filter]
  induction xs.filter shown with
  | nil => rfl
  | cons x xs ih => simp [ofArticles, ofList, ih]

end Supply

namespace Archive

/-- Whether a search at a time looks at an article. -/
def shows (now : DateTime) (includeFuture : Bool) (x : Article) : Bool :=
  includeFuture || decide (x.createdAt.rank ≤ now.rank)

def published (a : Archive) (now : DateTime) : List Article :=
  a.articles.filter (shows now false)

def supply (a : Archive) (now : DateTime) (localize : Article → Except ε Article)
    (includeFuture : Bool) : Supply ε :=
  .ofArticles (shows now includeFuture) localize a.articles

def asksForFuture (a : Archive) (r : SearchRequest) : Bool :=
  r.includeFuture.getD a.settings.includeFuture

variable {a b : Archive} {now later : DateTime} {r q : SearchRequest}

theorem search_congr (hquery : r.query = q.query) (hpage : r.page = q.page)
    (hlimit : a.settings.appliedLimit r.limit = b.settings.appliedLimit q.limit)
    (hvisible : a.visible now r.language (a.asksForFuture r) =
      b.visible later q.language (b.asksForFuture q)) :
    a.search now r = b.search later q := by
  have houtcome : a.outcome now r = b.outcome later q := by
    unfold outcome
    dsimp only
    unfold asksForFuture at hvisible
    rw [hvisible, hquery]
  rw [search, search, houtcome]
  refine congrArg (b.outcome later q >>= ·) (funext fun o => ?_)
  rw [pageOf, pageOf, hquery, hpage, hlimit]

theorem visible_false (a : Archive) (now : DateTime) (language : Text) :
    a.visible now language false = (a.published now).map (·.localized language) :=
  rfl

theorem visible_of_published (h : ∀ x ∈ a.articles, x.createdAt.rank ≤ now.rank) (language : Text)
    (includeFuture : Bool) :
    a.visible now language includeFuture = a.articles.map (·.localized language) := by
  have hall : a.articles.filter (shows now includeFuture) = a.articles :=
    List.filter_eq_self.mpr fun x hx => by simp [shows, h x hx]
  exact congrArg _ hall

theorem visible_true (a : Archive) (now : DateTime) (language : Text) :
    a.visible now language true = a.articles.map (·.localized language) := by
  have hall : a.articles.filter (shows now true) = a.articles :=
    List.filter_eq_self.mpr fun x _ => rfl
  exact congrArg _ hall

theorem supply_false (a : Archive) (now : DateTime) (localize : Article → Except ε Article) :
    a.supply now localize false = .ofArticles (fun _ => true) localize (a.published now) :=
  Supply.ofArticles_filter _ _ _

theorem supply_localized (a : Archive) (now : DateTime) (language : Text) (includeFuture : Bool) :
    a.supply (ε := ε) now (fun x => .ok (x.localized language)) includeFuture =
      .ofList (a.visible now language includeFuture) :=
  Supply.ofArticles_ok _ _ _

/-- A search that does not ask for articles of the future comes out alike in archives that differ in
such articles only, be it with a page of results or without an answer. So it does when the articles
are handed out one by one and bringing one into the language may fail. A search that asks for them
comes out as it does once all articles have appeared. -/
theorem search_hides_future (hsettings : a.settings = b.settings)
    (hpublished : a.published now = b.published now) (r : SearchRequest) :
    (a.asksForFuture r = false → a.search now r = b.search now r ∧
      ∀ {ε : Type} (localize : Article → Except ε Article),
        SearchOutcome.ofSupply r.query (a.supply now localize false) =
          SearchOutcome.ofSupply r.query (b.supply now localize false)) ∧
    (a.asksForFuture r = true → ∀ later, (∀ x ∈ a.articles, x.createdAt.rank ≤ later.rank) →
      ∀ includeFuture, a.search now r = a.search later { r with includeFuture }) ∧
    ∀ {ε : Type} (includeFuture : Bool),
      SearchOutcome.ofSupply r.query
          (a.supply (ε := ε) now (fun x => .ok (x.localized r.language)) includeFuture) =
        (SearchOutcome.ofText r.query (a.visible now r.language includeFuture)).mapError
          .search := by
  refine ⟨fun hr => ⟨?_, fun localize => ?_⟩, fun hr later hlater includeFuture => ?_,
    fun includeFuture => ?_⟩
  · have hasks : b.asksForFuture r = false := by rwa [asksForFuture, ← hsettings]
    refine search_congr rfl rfl (by rw [hsettings]) ?_
    rw [hr, hasks, visible_false, visible_false, hpublished]
  · rw [supply_false, supply_false, hpublished]
  · refine search_congr rfl rfl rfl ?_
    rw [hr, visible_true, visible_of_published hlater]
  · rw [supply_localized, SearchOutcome.ofSupply_ofList]

theorem search_hides_unservable_future :
    let day (d : Nat) (h : d = 1 ∨ d = 2) : DateTime :=
      .midnight ⟨2024, 1, d, by decide, by decide, by rcases h with rfl | rfl <;> decide⟩
    let now := day 1 (.inl rfl)
    let later := day 2 (.inr rfl)
    let article (id : Nat) (category : Option Category) (createdAt : DateTime) : Article :=
      { id, title := "t".toList, content := [], summary := [], category, createdAt, viewCount := 0,
        localizations := [] }
    let here := article 1 none now
    let hidden := article 2 (some ⟨.str "x".toList, "n".toList⟩) later
    let a : Archive := { articles := [hidden, here] }
    let b : Archive := { articles := [here] }
    let r : SearchRequest := { query := "views:0".toList }
    a.settings = b.settings ∧ a.published now = b.published now ∧ a.asksForFuture r = false ∧
      a.search now r = b.search now r ∧
      a.search now { r with includeFuture := some true } = a.search later r := by
  intro day now later article here hidden a b r
  have hpublished : a.published now = b.published now := by
    have hbefore : now.rank < later.rank := by decide
    simp [published, shows, a, b, here, hidden, article, hbefore]
  have hlater : ∀ x ∈ a.articles, x.createdAt.rank ≤ later.rank := by
    have hbefore : now.rank ≤ later.rank := by decide
    simp [a, hidden, here, article, hbefore]
  have hasks : a.asksForFuture r = false := rfl
  have hasksFuture : a.asksForFuture { r with includeFuture := some true } = true := rfl
  obtain ⟨hfound, -⟩ := (search_hides_future (a := a) (b := b) rfl hpublished r).1 hasks
  obtain ⟨-, hfuture, -⟩ := search_hides_future (a := a) (b := b) rfl hpublished
    { r with includeFuture := some true }
  exact ⟨rfl, hpublished, hasks, hfound, hfuture hasksFuture later hlater none⟩

end Archive

end ArticleArchive
