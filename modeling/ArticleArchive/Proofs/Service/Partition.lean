import ArticleArchive.Proofs.Number.Quotient
import ArticleArchive.Proofs.Service.Pages

namespace ArticleArchive

theorem forall₂_slice {α β : Type} {R : α → β → Prop} {xs : List α} {ys : List β}
    (h : List.Forall₂ R xs ys) (start stop : Int) :
    List.Forall₂ R (slice xs start stop) (slice ys start stop) := by
  unfold slice
  rw [h.length_eq]
  exact List.forall₂_take _ (List.forall₂_drop _ h)

namespace Pagination

section

variable {α : Type} (xs : List α) (limit : Nat)

theorem window_eq (i : Nat) : window (i + 1) limit xs = (xs.drop (i * limit)).take limit := by
  have hstart : ((i : Int) + 1 - 1) * limit = (i * limit : Nat) := by
    rw [Int.add_sub_cancel]
    norm_cast
  rw [window, slice, hstart, ← Int.natCast_add, clampIndex_natCast, clampIndex_natCast]
  rcases Nat.le_total (i * limit) xs.length with h | h
  · rw [Nat.min_eq_left h, List.take_eq_take_iff, List.length_drop]
    omega
  · rw [Nat.min_eq_right h, List.drop_eq_nil_of_le h]
    simp

theorem flatMap_window (n : Nat) :
    (List.range n).flatMap (fun i : Nat => window (i + 1) limit xs) = xs.take (n * limit) := by
  induction n with
  | zero => simp
  | succ n ih =>
    rw [List.range_succ, List.flatMap_append, ih, List.flatMap_singleton, window_eq,
      Nat.succ_mul, List.take_add]

end

/-- `n` pages have room for `total` items, and fewer have not. -/
def IsPageCount (total : Nat) (limit : Int) (n : Nat) : Prop :=
  (total : Int) ≤ n * limit ∧ ∀ m : Nat, (total : Int) ≤ m * limit → n ≤ m

theorem pageCount?_eq {limit : Int} (hpos : 1 ≤ limit) (total : Nat) :
    pageCount? total limit = (Binary64.ofRatio false total limit.natAbs).ceil? := by
  rw [pageCount?, if_neg (by omega), decide_eq_false (by omega)]

theorem pageCount?_spec {total : Nat} {limit : Int} (hpos : 1 ≤ limit)
    (hlimit : limit < 2 ^ (53 : Nat)) (htotal : total < 2 ^ (53 : Nat)) :
    ∃ n : Nat, pageCount? total limit = some n ∧ IsPageCount total limit n := by
  obtain ⟨l, rfl⟩ := Int.eq_ofNat_of_zero_le (by omega : 0 ≤ limit)
  have hl : 0 < l := by omega
  obtain ⟨hle, hlt⟩ := Binary64.ceilDiv_spec total hl
  refine ⟨(total + (l - 1)) / l, ?_, ?_, fun m hm => ?_⟩
  · rw [pageCount?_eq hpos, Int.natAbs_natCast]
    exact Binary64.ceil?_ofRatio htotal hl (by omega)
  · exact_mod_cast hle
  · have hm : total ≤ m * l := by exact_mod_cast hm
    generalize (total + (l - 1)) / l = n at hlt
    have hlt : n * l < (m + 1) * l := by
      rw [Nat.succ_mul]
      omega
    exact Nat.le_of_lt_succ (Nat.lt_of_mul_lt_mul_right hlt)

end Pagination

/-- `page` divides the results of a search, which are `hits`, into `n` pages of at most `limit`. -/
structure SearchPage.Divides (hits : List SearchHit) (limit : Int) (n : Nat)
    (page : Int → SearchPage) : Prop where
  count : Pagination.IsPageCount hits.length limit n
  whole : (List.range n).flatMap (fun i : Nat => (page (i + 1)).results) = hits
  nonempty : ∀ i : Int, 1 ≤ i → i ≤ n → (page i).results ≠ []
  full : ∀ i : Int, 1 ≤ i → i < n → ((page i).results.length : Int) = limit
  later : ∀ i : Int, n < i → (page i).results = []
  earlier : ∀ i : Int, i < 1 → page i = page 1
  pagination : ∀ i, (page i).pagination = ⟨max i 1, limit, hits.length, n⟩
  sort : ∀ i, (page i).sort = (page 1).sort

namespace SearchPage

def cut (query : Text) (sort : SortSpec) (hits : List SearchHit) (limit : Int) (n : Nat)
    (i : Int) : SearchPage where
  query := query
  results := Pagination.window (max i 1) limit hits
  pagination := ⟨max i 1, limit, hits.length, n⟩
  sort := sort

theorem results_cut (query : Text) (sort : SortSpec) (hits : List SearchHit) (limit n k : Nat) :
    (cut query sort hits limit n (k + 1)).results = (hits.drop (k * limit)).take limit := by
  rw [← Pagination.window_eq]
  show Pagination.window (max ((k : Int) + 1) 1) limit hits = _
  rw [Int.max_eq_left (by omega)]

theorem divides_cut (query : Text) (sort : SortSpec) {hits : List SearchHit} {limit : Int} {n : Nat}
    (hpos : 1 ≤ limit) (hcount : Pagination.IsPageCount hits.length limit n) :
    Divides hits limit n (cut query sort hits limit n) := by
  obtain ⟨l, rfl⟩ := Int.eq_ofNat_of_zero_le (by omega : 0 ≤ limit)
  have hroom : hits.length ≤ n * l := by exact_mod_cast hcount.1
  -- a page has a result exactly if all pages before it have too little room
  have hbefore {k : Nat} (hk : k < n) : k * l < hits.length := by
    by_contra h
    have hle : (hits.length : Int) ≤ (k : Int) * (l : Int) := by exact_mod_cast not_lt.mp h
    exact absurd (hcount.2 k hle) (by omega)
  have hnumber {i : Int} (hi : 1 ≤ i) : ∃ k : Nat, i = k + 1 := ⟨(i - 1).toNat, by omega⟩
  refine ⟨hcount, ?_, ?_, ?_, ?_, ?_, fun i => rfl, fun i => rfl⟩
  · simp only [results_cut, ← Pagination.window_eq]
    rw [Pagination.flatMap_window, List.take_of_length_le hroom]
  · intro i hi hn
    obtain ⟨k, rfl⟩ := hnumber hi
    have hk := hbefore (by omega : k < n)
    rw [results_cut, ← List.length_pos_iff, List.length_take, List.length_drop]
    omega
  · intro i hi hn
    obtain ⟨k, rfl⟩ := hnumber hi
    have hk := hbefore (by omega : k + 1 < n)
    rw [Nat.succ_mul] at hk
    rw [results_cut, List.length_take, List.length_drop]
    omega
  · intro i hn
    obtain ⟨k, rfl⟩ := hnumber (by omega : 1 ≤ i)
    have hk : n * l ≤ k * l := Nat.mul_le_mul_right l (by omega)
    rw [results_cut, List.drop_eq_nil_of_le (by omega), List.take_nil]
  · intro i hi
    have hmax : max i 1 = max 1 1 := by omega
    rw [cut, cut, hmax]

end SearchPage

theorem Settings.limits_ofEnvironment (env : List (Text × Text)) :
    1 ≤ (ofEnvironment env).defaultLimit ∧
      (ofEnvironment env).defaultLimit ≤ (ofEnvironment env).maxLimit := by
  have hmax (n : Int) : 1 ≤ validMaxLimit n := by
    unfold validMaxLimit
    split <;> omega
  have hmax := hmax (integerOr 100 (env.lookup maxLimitVariable))
  unfold ofEnvironment
  dsimp only
  unfold validDefaultLimit
  split <;> omega

namespace Archive

variable {a : Archive} {now : DateTime} {r : SearchRequest} {o : SearchOutcome}

theorem one_le_appliedLimit {s : Settings} (h : 1 ≤ s.defaultLimit) (requested : Option Int) :
    1 ≤ s.appliedLimit requested := by
  unfold Settings.appliedLimit
  split
  · exact h
  · split <;> omega

/-- The hits are the articles of the outcome as documents, with its terms marked in them. -/
def HitsOf (o : SearchOutcome) (hits : List SearchHit) : Prop :=
  List.Forall₂ (fun x hit => SearchHit.ofArticle o.terms x = .ok hit) o.articles hits

theorem exists_hitsOf (h : ∀ x ∈ o.articles, ∃ d, Document.ofArticle x false = .ok d) :
    ∃ hits, HitsOf o hits := by
  unfold HitsOf
  generalize o.articles = xs at h ⊢
  induction xs with
  | nil => exact ⟨[], .nil⟩
  | cons x xs ih =>
    obtain ⟨⟨d, hd⟩, h⟩ := List.forall_mem_cons.mp h
    obtain ⟨hits, hhits⟩ := ih h
    exact ⟨_, .cons (SearchHit.ofArticle_eq_ok_iff.mpr ⟨d, hd, rfl⟩) hhits⟩

theorem pageOf_eq_cut {settings : Settings} {hits : List SearchHit} {n : Nat}
    (hhits : HitsOf o hits)
    (hcount : Pagination.pageCount? o.articles.length (settings.appliedLimit r.limit) = some n) :
    pageOf settings r o =
      .ok (SearchPage.cut r.query o.sort hits (settings.appliedLimit r.limit) n r.page) := by
  have hfound := mapM_eq_ok_iff.mpr (forall₂_slice hhits
    ((max r.page 1 - 1) * settings.appliedLimit r.limit)
    ((max r.page 1 - 1) * settings.appliedLimit r.limit + settings.appliedLimit r.limit))
  unfold pageOf
  dsimp only
  rw [Pagination.window, hfound, hcount, hhits.length_eq]
  rfl

/-- The pages of a search divide the complete list of its results, which are the articles that the
query finds in their order, each as a document with the terms marked. -/
theorem pages_divide_results (hdefault : 1 ≤ a.settings.defaultLimit)
    (ho : a.outcome now r = .ok o)
    (hdocuments : ∀ x ∈ o.articles, ∃ d, Document.ofArticle x false = .ok d)
    (hlimit : a.settings.appliedLimit r.limit < 2 ^ (53 : Nat))
    (htotal : o.articles.length < 2 ^ (53 : Nat)) :
    (Query.isBlankText r.query = true ∧ o = {} ∨
      ∃ q found, Query.compile r.query = .ok q ∧
        q.execute (a.visible now r.language (r.includeFuture.getD a.settings.includeFuture)) =
          .ok found ∧ arrange? q.sort q.terms found = some o.articles) ∧
    ∃ hits n page, HitsOf o hits ∧ (∀ i, a.search now { r with page := i } = .ok (page i)) ∧
      SearchPage.Divides hits (a.settings.appliedLimit r.limit) n page ∧
      (page 1).sort = o.sort := by
  have hpos := one_le_appliedLimit hdefault r.limit
  obtain ⟨hits, hhits⟩ := exists_hitsOf hdocuments
  obtain ⟨n, hn, hcount⟩ := Pagination.pageCount?_spec hpos hlimit htotal
  rw [hhits.length_eq] at hcount
  refine ⟨SearchOutcome.ofText_eq_ok (outcome_eq_ok_iff.mp ho), hits, n, _, hhits, fun i => ?_,
    SearchPage.divides_cut r.query o.sort hpos hcount, rfl⟩
  have houtcome : a.outcome now { r with page := i } = .ok o := ho
  rw [search, houtcome]
  exact pageOf_eq_cut (r := { r with page := i }) hhits hn

theorem pages_divide_three_results :
    let day : Date := ⟨2024, 1, 1, by decide, by decide, by decide⟩
    let found (id : Nat) : Article :=
      { id, title := "t".toList, content := [], summary := [], category := none,
        createdAt := .midnight day, viewCount := 0, localizations := [] }
    let a : Archive := { articles := [found 3, found 2, found 1] }
    ∃ hits page, HitsOf { articles := a.articles } hits ∧
      (∀ i, a.search (.midnight day) { query := "views:0".toList, limit := some 2, page := i } =
        .ok (page i)) ∧ SearchPage.Divides hits 2 2 page := by
  intro day found a
  let q : Query := { views := [⟨.views, .eq, "0".toList⟩] }
  let o : SearchOutcome := { query := some q, articles := a.articles }
  have hq : Query.compile "views:0".toList = .ok q := Query.compile_views rfl
  have harrange : arrange? q.sort q.terms a.articles = some a.articles := by
    have hnewest : a.articles.Pairwise fun x y => x.newerOrSame y = true := by
      simp [a, found, Article.newerOrSame]
    exact congrArg some (List.mergeSort_of_pairwise hnewest)
  have houtcome : a.outcome (.midnight day) { query := "views:0".toList, limit := some 2 } =
      .ok o := by
    have hvisible : a.visible (.midnight day) [] false = a.articles := by
      simp [a, found, visible, Article.localized, Article.localization?]
    have hexecute : q.execute a.articles = .ok a.articles := rfl
    apply outcome_eq_ok_iff.mpr
    show SearchOutcome.ofText _ (a.visible (.midnight day) [] false) = _
    rw [hvisible]
    exact SearchOutcome.ofText_of_arrange rfl hq hexecute harrange
  have hdocument (id : Nat) (hid : 0 < id) : ∃ d, Document.ofArticle (found id) false = .ok d := by
    have hformed : (found id).IsFormed := ⟨hid, List.cons_ne_nil _ _, by simp [found]⟩
    rcases hformed.ofArticle_cases with ⟨-, d, hd, -⟩ | ⟨hservable, -⟩
    · exact ⟨d, hd⟩
    · exact absurd (fun c hc => by simp [found] at hc) hservable
  have hdocuments : ∀ x ∈ [found 3, found 2, found 1], ∃ d, Document.ofArticle x false = .ok d := by
    simp [hdocument]
  obtain ⟨-, hits, n, page, hhits, hsearch, hdivides, -⟩ :=
    pages_divide_results (by decide) houtcome hdocuments (by decide) (by decide)
  obtain rfl : n = 2 := by
    have hlength : hits.length = 3 := hhits.length_eq.symm
    have hlimit : a.settings.appliedLimit (some 2) = 2 := rfl
    obtain ⟨hroom, hleast⟩ := hdivides.count
    rw [hlength, hlimit] at hroom hleast
    have htwo := hleast 2 (by decide)
    omega
  exact ⟨hits, page, hhits, hsearch, hdivides⟩

end Archive

end ArticleArchive
