import ArticleArchive.Proofs.Calendar.Days
import ArticleArchive.Proofs.Search.Insertion

namespace ArticleArchive

theorem Date.rank_injective {d e : Date} (h : d.rank = e.rank) : d = e := by
  have hd := d.parts_lt
  have he := e.parts_lt
  unfold rank at h
  obtain ⟨_, _, _, _, _, _⟩ := d
  obtain ⟨_, _, _, _, _, _⟩ := e
  rw [Date.mk.injEq]
  dsimp only at h hd he
  omega

namespace DateTime

/-- The order of time: by the day, then by the time of day. -/
def Before (t u : DateTime) : Prop :=
  t.date.Before u.date ∨ t.date = u.date ∧ t.micros < u.micros

theorem rank_lt_iff {t u : DateTime} : t.rank < u.rank ↔ t.Before u := by
  have ht := t.micros_lt
  have hu := u.micros_lt
  rw [Before, ← Date.rank_lt_iff]
  by_cases h : t.date = u.date
  · simp [rank, h]
  · have hne := mt Date.rank_injective h
    simp only [rank, h, false_and, or_false, dayMicros] at ht hu ⊢
    omega

theorem rank_injective {t u : DateTime} (h : t.rank = u.rank) : t = u := by
  have ht := t.micros_lt
  have hu := u.micros_lt
  obtain ⟨d, m, _⟩ := t
  obtain ⟨e, n, _⟩ := u
  simp only [rank, dayMicros] at h ht hu
  obtain rfl : d = e := Date.rank_injective (by omega)
  obtain rfl : m = n := by omega
  rfl

end DateTime

/-- The order of texts: by the first code point in which they differ, what is shorter first. -/
def Text.UpTo (s t : Text) : Prop :=
  s = t ∨ List.Lex (fun c d : Char => c.toNat < d.toNat) s t

theorem RankKey.textLe_iff {s t : Text} : textLe s t = true ↔ s.UpTo t := by
  induction s generalizing t with
  | nil =>
    cases t with
    | nil => exact iff_of_true rfl (.inl rfl)
    | cons b t => exact iff_of_true rfl (.inr .nil)
  | cons a s ih =>
    cases t with
    | nil => exact iff_of_false Bool.false_ne_true (by rintro (h | h) <;> cases h)
    | cons b t =>
      rw [textLe, Bool.or_eq_true, Bool.and_eq_true, decide_eq_true_eq, beq_iff_eq, ih]
      constructor
      · rintro (hlt | ⟨rfl, rfl | h⟩)
        · exact .inr (.rel hlt)
        · exact .inl rfl
        · exact .inr (.cons h)
      · rintro (h | h)
        · obtain ⟨rfl, rfl⟩ := List.cons_eq_cons.mp h
          exact .inr ⟨rfl, .inl rfl⟩
        · cases h with
          | rel hlt => exact .inl hlt
          | cons h => exact .inr ⟨rfl, .inr h⟩

namespace SortKey

variable {k : SortKey} {terms : List Text} {a b : Article}

/-- Whether the key of an article is at most that of another one. -/
def KeyLe (k : SortKey) (terms : List Text) (a b : Article) : Prop :=
  match k with
  | date => ¬ b.createdAt.Before a.createdAt
  | views => a.viewCount ≤ b.viewCount
  | title => (Text.fold a.title).UpTo (Text.fold b.title)
  | relevance => ArticleArchive.relevance terms a ≤ ArticleArchive.relevance terms b

def KeyEq (k : SortKey) (terms : List Text) (a b : Article) : Prop :=
  match k with
  | date => a.createdAt = b.createdAt
  | views => a.viewCount = b.viewCount
  | title => Text.fold a.title = Text.fold b.title
  | relevance => ArticleArchive.relevance terms a = ArticleArchive.relevance terms b

theorem rankKey_le_iff :
    (k.rankKey terms a).le (k.rankKey terms b) = true ↔ k.KeyLe terms a b := by
  cases k with
  | date => simp [rankKey, RankKey.le, KeyLe, ← DateTime.rank_lt_iff]
  | views => simp [rankKey, RankKey.le, KeyLe]
  | title => simp only [rankKey, RankKey.le, KeyLe, RankKey.textLe_iff]
  | relevance => simp [rankKey, RankKey.le, KeyLe]

theorem rankKey_eq_iff : k.rankKey terms a = k.rankKey terms b ↔ k.KeyEq terms a b := by
  cases k with
  | date =>
    rw [rankKey, rankKey, RankKey.number.injEq]
    exact ⟨DateTime.rank_injective, congrArg _⟩
  | views => simp [rankKey, KeyEq]
  | title => simp [rankKey, KeyEq]
  | relevance => simp [rankKey, KeyEq]

instance : DecidableRel (k.KeyEq terms) := fun _ _ =>
  decidable_of_iff _ rankKey_eq_iff

end SortKey

section

variable {α : Type}

/-- Of items no two of which `le` can tell apart, none is moved past another. -/
theorem filter_mergeSort (le : α → α → Bool)
    (htrans : ∀ x y z, le x y = true → le y z = true → le x z = true)
    (htotal : ∀ x y, (le x y || le y x) = true) {p : α → Bool}
    (hp : ∀ x y, p x = true → p y = true → le x y = true) (xs : List α) :
    (xs.mergeSort le).filter p = xs.filter p := by
  -- what `p` holds of is in order as it stands, so it is found in the sorted list in that order
  have hpairwise : (xs.filter p).Pairwise fun x y => le x y = true :=
    List.Pairwise.imp_of_mem (fun hx hy _ => hp _ _ (List.of_mem_filter hx) (List.of_mem_filter hy))
      (List.pairwise_of_forall (R := fun _ _ => True) fun _ _ => True.intro)
  have hsub := (List.sublist_mergeSort htrans htotal hpairwise List.filter_sublist).filter p
  rw [List.filter_filter] at hsub
  simp only [Bool.and_self] at hsub
  refine (hsub.eq_of_length ?_).symm
  exact (((List.mergeSort_perm xs le).filter p).length_eq).symm

end

theorem filter_orderByKey {α : Type} (descending : Bool) (key : α → RankKey) {p : α → Bool}
    (hp : ∀ x y, p x = true → p y = true → key x = key y) (xs : List α) :
    (orderByKey descending key xs).filter p = xs.filter p := by
  rw [orderByKey_eq]
  refine filter_mergeSort (fun x y => RankKey.before descending (key x) (key y))
    (fun _ _ _ => RankKey.before_trans)
    (fun x y => by simpa using RankKey.before_total descending (key x) (key y))
    (fun x y hx hy => ?_) xs
  rw [hp x y hx hy, RankKey.before_refl]

section

variable {terms : List Text} {as bs : List Article}

theorem arrange?_none_filter (h : arrange? none terms as = some bs) (a : Article) :
    bs.filter (fun b => b.createdAt = a.createdAt ∧ b.id = a.id) =
      as.filter fun b => b.createdAt = a.createdAt ∧ b.id = a.id := by
  obtain rfl := Option.some.inj h
  refine filter_mergeSort _ Article.newerOrSame_trans Article.newerOrSame_total ?_ as
  intro x y hx hy
  simp only [decide_eq_true_eq] at hx hy
  simp [Article.newerOrSame_iff, hx, hy]

theorem arrange?_some_filter {s : SortSpec} {k : SortKey} (hk : SortKey.ofText? s.key = some k)
    (h : arrange? (some s) terms as = some bs) (a : Article) :
    bs.filter (fun b => k.KeyEq terms b a ∧ b.id = a.id) =
      as.filter fun b => k.KeyEq terms b a ∧ b.id = a.id := by
  obtain ⟨k', hk', rfl⟩ := Option.map_eq_some_iff.mp h
  obtain rfl : k = k' := Option.some.inj (hk.symm.trans hk')
  rw [filter_orderByKey]
  · refine filter_mergeSort _ Article.idLe_trans Article.idLe_total ?_ as
    intro x y hx hy
    simp only [decide_eq_true_eq] at hx hy
    simp [Article.idLe, hx.2, hy.2]
  · intro x y hx hy
    simp only [decide_eq_true_eq, ← SortKey.rankKey_eq_iff] at hx hy
    exact hx.1.trans hy.1.symm

theorem arrange?_none_pairwise (h : arrange? none terms as = some bs) :
    bs.Pairwise fun a b =>
      b.createdAt.Before a.createdAt ∨ a.createdAt = b.createdAt ∧ b.id ≤ a.id := by
  refine (arrange?_pairwise h).imp fun hab => ?_
  rw [← DateTime.rank_lt_iff]
  exact (Article.newerOrSame_iff.mp hab).imp_right (And.imp_left DateTime.rank_injective)

theorem arrange?_some_pairwise {s : SortSpec} {k : SortKey} (hk : SortKey.ofText? s.key = some k)
    (h : arrange? (some s) terms as = some bs) :
    (bs.Pairwise fun a b => if s.descending then k.KeyLe terms b a else k.KeyLe terms a b) ∧
      bs.Pairwise fun a b => k.KeyEq terms a b → a.id ≤ b.id := by
  rw [← List.pairwise_and_iff]
  refine (arrange?_pairwise h).imp ?_
  rintro a b ⟨k', hk', hkeys, hids⟩
  obtain rfl : k = k' := Option.some.inj (hk.symm.trans hk')
  refine ⟨?_, fun he => hids (SortKey.rankKey_eq_iff.mpr he)⟩
  unfold RankKey.before at hkeys
  split
  · rename_i hd
    rw [if_pos hd] at hkeys
    exact SortKey.rankKey_le_iff.mp hkeys
  · rename_i hd
    rw [if_neg hd] at hkeys
    exact SortKey.rankKey_le_iff.mp hkeys

end

/-- The orders of results, over any articles and terms. No article is lost or repeated. Without a
directive the times of the articles fall, and of one time their identifiers; with one the keys rise
or fall as it says, and the identifiers of articles of one key rise in both directions. Articles
that agree in both stay in the order in which they were given. -/
theorem arrange?_orders (terms : List Text) (as : List Article) :
    (∀ sort bs, arrange? sort terms as = some bs → bs.Perm as) ∧
    (∃ bs, arrange? none terms as = some bs ∧
      (bs.Pairwise fun a b =>
        b.createdAt.Before a.createdAt ∨ a.createdAt = b.createdAt ∧ b.id ≤ a.id) ∧
      ∀ a : Article, bs.filter (fun b => b.createdAt = a.createdAt ∧ b.id = a.id) =
        as.filter fun b => b.createdAt = a.createdAt ∧ b.id = a.id) ∧
    ∀ name k, SortKey.ofText? name = some k → ∀ direction ∈ ["asc".toList, "desc".toList],
      ∃ bs, arrange? (some ⟨name, direction⟩) terms as = some bs ∧
        (direction = "asc".toList → bs.Pairwise fun a b => k.KeyLe terms a b) ∧
        (direction = "desc".toList → bs.Pairwise fun a b => k.KeyLe terms b a) ∧
        (bs.Pairwise fun a b => k.KeyEq terms a b → a.id ≤ b.id) ∧
        ∀ a, bs.filter (fun b => k.KeyEq terms b a ∧ b.id = a.id) =
          as.filter fun b => k.KeyEq terms b a ∧ b.id = a.id := by
  refine ⟨fun sort bs h => arrange?_perm h, ?_, fun name k hk direction _ => ?_⟩
  · obtain ⟨bs, hbs⟩ : ∃ bs, arrange? none terms as = some bs := ⟨_, rfl⟩
    exact ⟨bs, hbs, arrange?_none_pairwise hbs, arrange?_none_filter hbs⟩
  · obtain ⟨bs, hbs⟩ := exists_arrange?_some (s := ⟨name, direction⟩) hk terms as
    obtain ⟨hkeys, hids⟩ := arrange?_some_pairwise hk hbs
    refine ⟨bs, hbs, ?_, ?_, hids, arrange?_some_filter hk hbs⟩
    · rintro rfl
      exact hkeys
    · rintro rfl
      exact hkeys

/-- The article with most views comes first, and the other two change places. -/
theorem arrange?_orders_by_views :
    let day : Date := ⟨2024, 2, 29, by decide, by decide, by decide⟩
    let article (id views : Nat) : Article :=
      ⟨id, "T".toList, [], [], none, .midnight day, views, []⟩
    arrange? (some ⟨"view_count".toList, "desc".toList⟩) []
      [article 2 5, article 1 5, article 3 9] = some [article 3 9, article 1 5, article 2 5] := by
  intro day article
  obtain ⟨hperm, -, hsome⟩ := arrange?_orders [] [article 2 5, article 1 5, article 3 9]
  obtain ⟨bs, hbs, -, hkeys, hids, -⟩ :=
    hsome "view_count".toList .views rfl "desc".toList (by simp)
  have hperm : bs.Perm [article 3 9, article 1 5, article 2 5] :=
    (hperm _ _ hbs).trans (List.reverse_perm [article 3 9, article 1 5, article 2 5])
  have hnodup : (bs.map (·.id)).Nodup := (hperm.map (·.id)).nodup_iff.mpr (by decide)
  have hsorted := List.pairwise_and_iff.mpr ⟨hkeys rfl, hids⟩
  rw [hbs, hperm.eq_of_pairwise (fun a b ha hb hab hba => ?_) hsorted
    (by simp [article, SortKey.KeyLe, SortKey.KeyEq])]
  refine List.inj_on_of_nodup_map hnodup ha (hperm.mem_iff.mpr hb) ?_
  have hviews : a.viewCount = b.viewCount := Nat.le_antisymm hba.1 hab.1
  exact Nat.le_antisymm (hab.2 hviews) (hba.2 hviews.symm)

end ArticleArchive
