import ArticleArchive.Ranking

namespace ArticleArchive

namespace RankKey

theorem textLe_total (s t : Text) : textLe s t = true ∨ textLe t s = true := by
  induction s generalizing t with
  | nil => exact .inl rfl
  | cons a s ih =>
    cases t with
    | nil => exact .inr rfl
    | cons b t =>
      simp only [textLe, Bool.or_eq_true, Bool.and_eq_true, decide_eq_true_eq, beq_iff_eq]
      by_cases hab : a = b
      · rcases ih t with h | h
        · exact .inl (.inr ⟨hab, h⟩)
        · exact .inr (.inr ⟨hab.symm, h⟩)
      · have hne : a.toNat ≠ b.toNat := fun h => hab (Char.toNat_inj.mp h)
        omega

theorem textLe_trans {s t u : Text} (hst : textLe s t = true) (htu : textLe t u = true) :
    textLe s u = true := by
  induction s generalizing t u with
  | nil => rfl
  | cons a s ih =>
    cases t with
    | nil => simp [textLe] at hst
    | cons b t =>
      cases u with
      | nil => simp [textLe] at htu
      | cons c u =>
        simp only [textLe, Bool.or_eq_true, Bool.and_eq_true, decide_eq_true_eq,
          beq_iff_eq] at hst htu ⊢
        rcases hst with hab | ⟨rfl, hst⟩
        · rcases htu with hbc | ⟨rfl, -⟩
          · exact .inl (Nat.lt_trans hab hbc)
          · exact .inl hab
        · rcases htu with hbc | ⟨rfl, htu⟩
          · exact .inl hbc
          · exact .inr ⟨rfl, ih hst htu⟩

theorem textLe_antisymm {s t : Text} (hst : textLe s t = true) (hts : textLe t s = true) :
    s = t := by
  induction s generalizing t with
  | nil =>
    cases t with
    | nil => rfl
    | cons b t => simp [textLe] at hts
  | cons a s ih =>
    cases t with
    | nil => simp [textLe] at hst
    | cons b t =>
      simp only [textLe, Bool.or_eq_true, Bool.and_eq_true, decide_eq_true_eq,
        beq_iff_eq] at hst hts
      rcases hst with hab | ⟨rfl, hst⟩
      · rcases hts with hba | ⟨rfl, -⟩
        · omega
        · omega
      · rcases hts with haa | ⟨-, hts⟩
        · omega
        · rw [ih hst hts]

theorem le_total (x y : RankKey) : x.le y = true ∨ y.le x = true := by
  cases x with
  | number m =>
    cases y with
    | number n => simpa [le] using Nat.le_total m n
    | text t => exact .inl rfl
  | text s =>
    cases y with
    | number n => exact .inr rfl
    | text t => exact textLe_total s t

theorem le_trans {x y z : RankKey} (hxy : x.le y = true) (hyz : y.le z = true) :
    x.le z = true := by
  cases x <;> cases y <;> cases z <;> simp only [le, decide_eq_true_eq] at hxy hyz ⊢
  case number.number.number => exact Nat.le_trans hxy hyz
  case text.text.text => exact textLe_trans hxy hyz
  all_goals simp at hxy hyz

theorem le_antisymm {x y : RankKey} (hxy : x.le y = true) (hyx : y.le x = true) : x = y := by
  cases x <;> cases y <;> simp only [le, decide_eq_true_eq] at hxy hyx
  case number.number => rw [Nat.le_antisymm hxy hyx]
  case text.text => rw [textLe_antisymm hxy hyx]
  all_goals simp at hxy hyx

def before (descending : Bool) (x y : RankKey) : Bool :=
  if descending then y.le x else x.le y

theorem before_total (descending : Bool) (x y : RankKey) :
    before descending x y = true ∨ before descending y x = true := by
  cases descending with
  | false => exact le_total x y
  | true => exact le_total y x

@[simp]
theorem before_refl (descending : Bool) (x : RankKey) : before descending x x = true :=
  (before_total descending x x).elim id id

theorem before_trans {descending : Bool} {x y z : RankKey} (hxy : before descending x y = true)
    (hyz : before descending y z = true) : before descending x z = true := by
  cases descending with
  | false => exact le_trans hxy hyz
  | true => exact le_trans hyz hxy

end RankKey

variable {α : Type}

theorem orderByKey_eq (descending : Bool) (key : α → RankKey) (xs : List α) :
    orderByKey descending key xs =
      xs.mergeSort fun x y => RankKey.before descending (key x) (key y) := by
  have hsorted := List.map_mergeSort (r := fun x y => RankKey.before descending (key x) (key y))
    (s := fun p q : RankKey × α => RankKey.before descending p.1 q.1) (f := fun x => (key x, x))
    (l := xs) fun _ _ _ _ => rfl
  have hitems := congrArg (List.map Prod.snd) hsorted
  rw [List.map_map] at hitems
  exact hitems.symm.trans (List.map_id _)

theorem orderByKey_perm (descending : Bool) (key : α → RankKey) (xs : List α) :
    (orderByKey descending key xs).Perm xs := by
  rw [orderByKey_eq]
  exact List.mergeSort_perm _ _

/-- Sorting leaves items as they stand that could as well stand the other way round. -/
theorem pairwise_mergeSort_of_pairwise (le : α → α → Bool) {r : α → α → Prop}
    (htrans : ∀ x y z, le x y = true → le y z = true → le x z = true)
    (htotal : ∀ x y, (le x y || le y x) = true) {xs : List α} (h : xs.Pairwise r) :
    (xs.mergeSort le).Pairwise fun x y => le x y = true ∧ (le y x = true → r x y) := by
  -- the items with their places, sorted by the place where `le` leaves it open
  let zs := xs.zipIdx.mergeSort (List.zipIdxLE le)
  have hsorted : zs.Pairwise fun p q => List.zipIdxLE le p q = true :=
    List.pairwise_mergeSort (List.zipIdxLE_trans htrans) (List.zipIdxLE_total htotal) _
  have hplaces : zs.Pairwise fun p q => p.2 ≠ q.2 := by
    have hperm := (List.mergeSort_perm xs.zipIdx (List.zipIdxLE le)).map (·.2)
    rw [List.zipIdx_map_snd] at hperm
    exact List.pairwise_map.mp (hperm.nodup_iff.mpr List.nodup_range')
  have hplace : ∀ p ∈ zs, xs[p.2]? = some p.1 := fun p hp =>
    List.mem_zipIdx_iff_getElem?.mp (List.mem_mergeSort.mp hp)
  rw [← List.mergeSort_zipIdx]
  refine List.pairwise_map.mpr ((List.pairwise_and_iff.mpr ⟨hsorted, hplaces⟩).imp_of_mem ?_)
  rintro ⟨x, i⟩ ⟨y, j⟩ hx hy ⟨hle, hne⟩
  obtain ⟨hi, hx⟩ := List.getElem?_eq_some_iff.mp (hplace _ hx)
  obtain ⟨hj, hy⟩ := List.getElem?_eq_some_iff.mp (hplace _ hy)
  dsimp only at hx hy hne
  unfold List.zipIdxLE at hle
  split at hle
  · rename_i hxy
    refine ⟨hxy, fun hyx => ?_⟩
    rw [if_pos hyx, decide_eq_true_eq] at hle
    have hlt : i < j := by
      dsimp only at hle
      omega
    have hr := List.pairwise_iff_getElem.mp h i j hi hj hlt
    rwa [hx, hy] at hr
  · simp at hle

theorem orderByKey_pairwise_of_pairwise (descending : Bool) (key : α → RankKey)
    {r : α → α → Prop} {xs : List α} (h : xs.Pairwise r) :
    (orderByKey descending key xs).Pairwise fun x y =>
      RankKey.before descending (key x) (key y) = true ∧ (key x = key y → r x y) := by
  have hsorted := pairwise_mergeSort_of_pairwise
    (fun x y => RankKey.before descending (key x) (key y)) (fun _ _ _ => RankKey.before_trans)
    (fun x y => by simpa using RankKey.before_total descending (key x) (key y)) h
  rw [orderByKey_eq]
  refine hsorted.imp fun {x y} hxy => ⟨hxy.1, fun he => hxy.2 ?_⟩
  rw [he, RankKey.before_refl]

theorem orderByKey_pairwise (descending : Bool) (key : α → RankKey) (xs : List α) :
    (orderByKey descending key xs).Pairwise fun x y =>
      RankKey.before descending (key x) (key y) = true :=
  (orderByKey_pairwise_of_pairwise descending key
    (List.pairwise_of_forall fun _ _ => True.intro)).imp And.left

theorem arrange?_perm {sort : Option SortSpec} {terms : List Text} {as bs : List Article}
    (h : arrange? sort terms as = some bs) : bs.Perm as := by
  cases sort with
  | none =>
    obtain rfl := Option.some.inj h
    exact List.mergeSort_perm _ _
  | some s =>
    obtain ⟨k, -, rfl⟩ := Option.map_eq_some_iff.mp h
    exact (orderByKey_perm _ _ _).trans (List.mergeSort_perm _ _)

end ArticleArchive
