import Mathlib.Data.List.Nodup
import ArticleArchive.Proofs.Query.Outcome
import ArticleArchive.Proofs.Search.Direction

namespace ArticleArchive

namespace Article

/-- Whether the order of results lets `a` stand before `b`. -/
def MayPrecede (sort : Option SortSpec) (terms : List Text) (a b : Article) : Prop :=
  match sort with
  | none => a.newerOrSame b = true
  | some s => ∃ k, SortKey.ofText? s.key = some k ∧
      RankKey.before s.descending (k.rankKey terms a) (k.rankKey terms b) = true ∧
      (k.rankKey terms a = k.rankKey terms b → a.id ≤ b.id)

theorem newerOrSame_iff {a b : Article} :
    a.newerOrSame b = true ↔ b.createdAt.rank < a.createdAt.rank ∨
      a.createdAt.rank = b.createdAt.rank ∧ b.id ≤ a.id := by
  simp [newerOrSame]

theorem newerOrSame_trans (a b c : Article) (hab : a.newerOrSame b = true)
    (hbc : b.newerOrSame c = true) : a.newerOrSame c = true := by
  rw [newerOrSame_iff] at hab hbc ⊢
  omega

theorem newerOrSame_total (a b : Article) : (a.newerOrSame b || b.newerOrSame a) = true := by
  rw [Bool.or_eq_true, newerOrSame_iff, newerOrSame_iff]
  omega

theorem idLe_trans (a b c : Article) (hab : a.idLe b = true) (hbc : b.idLe c = true) :
    a.idLe c = true := by
  simp only [idLe, decide_eq_true_eq] at hab hbc ⊢
  omega

theorem idLe_total (a b : Article) : (a.idLe b || b.idLe a) = true := by
  simp only [idLe, Bool.or_eq_true, decide_eq_true_eq]
  omega

variable {sort : Option SortSpec} {terms : List Text}

/-- No tie is left to chance: only articles of one identifier may stand either way. -/
theorem MayPrecede.id_eq {a b : Article} (hab : a.MayPrecede sort terms b)
    (hba : b.MayPrecede sort terms a) : a.id = b.id := by
  cases sort with
  | none =>
    have hab := newerOrSame_iff.mp hab
    have hba := newerOrSame_iff.mp hba
    omega
  | some s =>
    obtain ⟨k, hk, hab, hid⟩ := hab
    obtain ⟨k', hk', hba, hid'⟩ := hba
    obtain rfl : k = k' := Option.some.inj (hk.symm.trans hk')
    -- going up or down, keys that stand either way are equal, and then the identifiers decide
    have hkey : k.rankKey terms a = k.rankKey terms b := by
      cases hd : s.descending with
      | false =>
        rw [hd] at hab hba
        exact RankKey.le_antisymm hab hba
      | true =>
        rw [hd] at hab hba
        exact RankKey.le_antisymm hba hab
    exact Nat.le_antisymm (hid hkey) (hid' hkey.symm)

end Article

section

variable {sort : Option SortSpec} {terms : List Text} {as bs cs : List Article}

theorem arrange?_pairwise (h : arrange? sort terms as = some bs) :
    bs.Pairwise (Article.MayPrecede sort terms) := by
  cases sort with
  | none =>
    obtain rfl := Option.some.inj h
    exact List.pairwise_mergeSort Article.newerOrSame_trans Article.newerOrSame_total as
  | some s =>
    obtain ⟨k, hk, rfl⟩ := Option.map_eq_some_iff.mp h
    have hids : (as.mergeSort fun a b => a.idLe b).Pairwise fun a b => a.id ≤ b.id := by
      refine (List.pairwise_mergeSort Article.idLe_trans Article.idLe_total as).imp fun h => ?_
      simpa [Article.idLe] using h
    refine (orderByKey_pairwise_of_pairwise s.descending (fun a => k.rankKey terms a) hids).imp ?_
    intro a b hab
    exact ⟨k, hk, hab⟩

theorem eq_of_pairwise_mayPrecede (hperm : bs.Perm cs) (hids : (bs.map (·.id)).Nodup)
    (hb : bs.Pairwise (Article.MayPrecede sort terms))
    (hc : cs.Pairwise (Article.MayPrecede sort terms)) : bs = cs := by
  refine List.Perm.eq_of_pairwise (fun a b ha hb' hab hba => ?_) hb hc hperm
  exact List.inj_on_of_nodup_map hids ha (hperm.mem_iff.mpr hb') (hab.id_eq hba)

theorem arrange?_eq_of_perm (h : arrange? sort terms as = some cs) (hperm : as.Perm bs)
    (hids : (as.map (·.id)).Nodup) : arrange? sort terms bs = some cs := by
  obtain ⟨ds, hds⟩ : ∃ ds, arrange? sort terms bs = some ds := by
    cases sort with
    | none => exact ⟨_, rfl⟩
    | some s =>
      obtain ⟨k, hk, -⟩ := Option.map_eq_some_iff.mp h
      exact exists_arrange?_some hk terms bs
  have hc := arrange?_perm h
  have hd := arrange?_perm hds
  have hids' : (cs.map (·.id)).Nodup := (hc.map (·.id)).nodup_iff.mpr hids
  rw [hds, eq_of_pairwise_mayPrecede (hc.trans (hperm.trans hd.symm)) hids'
    (arrange?_pairwise h) (arrange?_pairwise hds)]

/-- One article more takes its place among the others, which stay in their order. -/
theorem arrange?_insert {before after : List Article} {a : Article}
    (h : arrange? sort terms (before ++ after) = some bs)
    (h' : arrange? sort terms (before ++ a :: after) = some cs)
    (hids : ((before ++ a :: after).map (·.id)).Nodup) :
    ∃ l r, bs = l ++ r ∧ cs = l ++ a :: r := by
  have hc := arrange?_perm h'
  have hmem : a ∈ cs := hc.mem_iff.mpr (by simp)
  obtain ⟨l, r, rfl⟩ := List.append_of_mem hmem
  refine ⟨l, r, ?_, rfl⟩
  have hsub : (l ++ r).Sublist (l ++ a :: r) :=
    (List.Sublist.refl l).append (List.sublist_cons_self a r)
  have hperm : (l ++ r).Perm bs := (List.perm_inv_core hc).trans (arrange?_perm h).symm
  have hnodup : ((l ++ r).map (·.id)).Nodup :=
    ((hc.map (·.id)).nodup_iff.mpr hids).sublist (hsub.map _)
  exact (eq_of_pairwise_mayPrecede hperm hnodup ((arrange?_pairwise h').sublist hsub)
    (arrange?_pairwise h)).symm

end

namespace SearchOutcome

open Token (Reads NumbersShort)

variable {raw : Text} {q : Query} {ls : List Lexeme}

theorem exists_ofText_eq_ok (hraw : Query.isBlankText raw = false) (hq : Query.compile raw = .ok q)
    (hls : Lexeme.ofText raw = .ok ls) (hn : NumbersShort (ls.map (·.token)))
    (corpus : List Article) :
    ∃ bs, arrange? q.sort q.terms (corpus.filter fun a => Reads (ls.map (·.token)) a) = some bs ∧
      ofText raw corpus =
        .ok { query := some q, articles := bs, sort := q.effectiveSort, terms := q.terms } := by
  obtain ⟨hparse, hp⟩ := Query.compile_eq_ok_iff.mp hq
  have hsort := (Query.parse_sound hparse hp).sort
  obtain ⟨bs, hbs⟩ := exists_arrange? hsort q.terms
    (corpus.filter fun a => Reads (ls.map (·.token)) a)
  exact ⟨bs, hbs, ofText_of_arrange hraw hq (Query.execute_of_compile hq hls hn corpus) hbs⟩

theorem ofText_blank (hraw : Query.isBlankText raw = true) (corpus : List Article) :
    ofText raw corpus = .ok {} := by
  simp [ofText, hraw]

theorem exists_ofText_singleton (hraw : Query.isBlankText raw = false)
    (hq : Query.compile raw = .ok q) (hls : Lexeme.ofText raw = .ok ls)
    (hn : NumbersShort (ls.map (·.token))) (a : Article) :
    ∃ o, ofText raw [a] = .ok o ∧
      o.articles = [a].filter fun a => Reads (ls.map (·.token)) a := by
  obtain ⟨bs, hbs, ho⟩ := exists_ofText_eq_ok hraw hq hls hn [a]
  have hperm := arrange?_perm hbs
  refine ⟨_, ho, ?_⟩
  by_cases ha : Reads (ls.map (·.token)) a
  · rw [List.filter_cons_of_pos (by simpa using ha)] at hperm ⊢
    exact List.perm_singleton.mp hperm
  · rw [List.filter_cons_of_neg (by simpa using ha)] at hperm ⊢
    exact List.perm_nil.mp hperm

end SearchOutcome

namespace Query

open Token (Reads NumbersShort)

/-- A search over articles with different identifiers has one outcome whatever their order. One
article more, wherever it is put, only takes a place among the results, if a search for it alone
finds it, and changes nothing if not; it is found alone if the query is no blank and the article
passes the test of the query. -/
theorem results_insert {raw : Text} {q : Query} {ls : List Lexeme} (hq : compile raw = .ok q)
    (hls : Lexeme.ofText raw = .ok ls) (hn : NumbersShort (ls.map (·.token))) :
    (∀ corpus corpus' : List Article, corpus.Perm corpus' → (corpus.map (·.id)).Nodup →
      ∃ o, SearchOutcome.ofText raw corpus = .ok o ∧ SearchOutcome.ofText raw corpus' = .ok o) ∧
    ∀ (before after : List Article) (a : Article), ((before ++ a :: after).map (·.id)).Nodup →
      ∃ o o' alone, SearchOutcome.ofText raw (before ++ after) = .ok o ∧
        SearchOutcome.ofText raw (before ++ a :: after) = .ok o' ∧
        SearchOutcome.ofText raw [a] = .ok alone ∧
        (alone.articles = [a] ∧ (∃ l r, o.articles = l ++ r ∧ o'.articles = l ++ a :: r) ∨
          alone.articles = [] ∧ o'.articles = o.articles) ∧
        (alone.articles = [a] ↔ isBlankText raw = false ∧ q.accepts a = .ok true) := by
  by_cases hraw : isBlankText raw = true
  · refine ⟨fun corpus corpus' _ _ => ⟨{}, SearchOutcome.ofText_blank hraw _,
      SearchOutcome.ofText_blank hraw _⟩, fun before after a _ => ⟨{}, {}, {}, ?_⟩⟩
    simp [SearchOutcome.ofText_blank hraw, hraw]
  have hraw : isBlankText raw = false := by simpa using hraw
  have hfound := SearchOutcome.exists_ofText_eq_ok hraw hq hls hn
  constructor
  · -- the articles that the tokens ask for are the same in another order, and so are arranged alike
    intro corpus corpus' hperm hids
    obtain ⟨bs, hbs, ho⟩ := hfound corpus
    obtain ⟨cs, hcs, ho'⟩ := hfound corpus'
    have hids : ((corpus.filter fun a => Reads (ls.map (·.token)) a).map (·.id)).Nodup :=
      hids.sublist (List.filter_sublist.map _)
    have hsame := arrange?_eq_of_perm hbs (hperm.filter _) hids
    obtain rfl : cs = bs := Option.some.inj (hcs.symm.trans hsame)
    exact ⟨_, ho, ho'⟩
  · intro before after a hids
    obtain ⟨bs, hbs, ho⟩ := hfound (before ++ after)
    obtain ⟨cs, hcs, ho'⟩ := hfound (before ++ a :: after)
    obtain ⟨alone, halone, harticles⟩ := SearchOutcome.exists_ofText_singleton hraw hq hls hn a
    refine ⟨_, _, alone, ho, ho', halone, ?_, ?_⟩
    · rw [List.filter_append] at hbs hcs
      -- either the article is asked for and takes its place, or it is left out of both searches
      by_cases ha : Reads (ls.map (·.token)) a
      · rw [List.filter_cons_of_pos (by simpa using ha)] at hcs harticles
        refine .inl ⟨harticles, arrange?_insert hbs hcs ?_⟩
        have hsub := ((List.filter_sublist (p := fun a => decide (Reads (ls.map (·.token)) a))
          (l := before ++ a :: after)).map (·.id))
        rw [List.filter_append, List.filter_cons_of_pos (by simpa using ha)] at hsub
        exact hids.sublist hsub
      · rw [List.filter_cons_of_neg (by simpa using ha)] at hcs harticles
        exact .inr ⟨harticles, Option.some.inj (hcs.symm.trans hbs)⟩
    · rw [accepts_of_compile hq hls hn, harticles]
      by_cases ha : Reads (ls.map (·.token)) a
      · simp [ha, hraw]
      · simp [ha]

theorem results_insert_by_relevance :
    let raw := "go views:>5 sort:relevance:desc".toList
    ∃ q, compile raw = .ok q ∧ q.sort = some ⟨"relevance".toList, "desc".toList⟩ ∧
      ∀ corpus corpus' : List Article, corpus.Perm corpus' → (corpus.map (·.id)).Nodup →
        ∃ o, SearchOutcome.ofText raw corpus = .ok o ∧
          SearchOutcome.ofText raw corpus' = .ok o := by
  intro raw
  let ls : List Lexeme := [⟨.word "go".toList, 0, 2⟩, ⟨.range "views".toList .gt ['5'], 3, 11⟩,
    ⟨.sort "relevance".toList "desc".toList, 12, 31⟩]
  let q : Query := {
    required := [.term ⟨"go".toList, false⟩]
    views := [⟨.views, .gt, ['5']⟩]
    sort := some ⟨"relevance".toList, "desc".toList⟩ }
  have hkey : Lexeme.scanToken "sort:relevance:desc".toList =
      .ok (.sort "relevance".toList "desc".toList, []) := by
    decide +kernel
  have h₁ : Lexeme.scanFrom 11 " sort:relevance:desc".toList = .ok (ls.drop 2) :=
    (Lexeme.scanFrom_blank rfl).trans
      (Lexeme.scanFrom_token_ok rfl hkey rfl (Lexeme.scanFrom_nil 31))
  have h₂ : Lexeme.scanFrom 2 " views:>5 sort:relevance:desc".toList = .ok (ls.drop 1) :=
    (Lexeme.scanFrom_blank rfl).trans (Lexeme.scanFrom_token_ok rfl rfl rfl h₁)
  have h₃ : Lexeme.scanFrom 0 raw = .ok ls := Lexeme.scanFrom_token_ok rfl rfl rfl h₂
  have hraw : Text.Balanced raw := rfl
  have hls := Lexeme.ofText_ok hraw h₃
  have hparse : ofTokens (ls.map (·.token)) = .ok q := rfl
  have hq : compile raw = .ok q := compile_of_ofText hls hparse rfl
  have hn : NumbersShort (ls.map (·.token)) := by
    intro name op value hm _
    obtain ⟨-, -, rfl⟩ := by simpa [ls] using hm
    decide
  exact ⟨q, hq, rfl, (results_insert hq hls hn).1⟩

end Query

end ArticleArchive
