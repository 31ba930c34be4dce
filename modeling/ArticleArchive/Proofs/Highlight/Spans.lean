import ArticleArchive.Highlight

namespace ArticleArchive

namespace Span

/-- The span holds a character and ends within a text of `n` characters. -/
def Fits (n : Nat) (p : Span) : Prop :=
  p.start < p.stop ∧ p.stop ≤ n

/-- The spans fit a text of `n` characters, and each ends before the next one starts. -/
structure Apart (n : Nat) (ps : List Span) : Prop where
  fits : ∀ p ∈ ps, p.Fits n
  before : ps.Pairwise fun p q => p.stop < q.start

variable {n : Nat} {a : Span} {as : List Span}

theorem le_iff {a b : Span} :
    le a b = true ↔ a.start < b.start ∨ a.start = b.start ∧ a.stop ≤ b.stop := by
  simp [le]

theorem le_trans (a b c : Span) (hab : le a b = true) (hbc : le b c = true) : le a c = true := by
  rw [le_iff] at *
  omega

theorem le_total (a b : Span) : (le a b || le b a) = true := by
  rw [Bool.or_eq_true, le_iff, le_iff]
  omega

theorem joinOnto_apart (ha : a.Fits n) (hfits : ∀ p ∈ as, p.Fits n)
    (hsorted : (a :: as).Pairwise fun p q => p.start ≤ q.start) :
    Apart n (joinOnto a as) ∧ ∀ p ∈ joinOnto a as, a.start ≤ p.start := by
  induction as generalizing a with
  | nil => exact ⟨⟨by simpa [joinOnto] using ha, by simp [joinOnto]⟩, by simp [joinOnto]⟩
  | cons b as ih =>
    obtain ⟨hb, has⟩ := List.forall_mem_cons.mp hfits
    obtain ⟨hfirst, hrest⟩ := List.pairwise_cons.mp hsorted
    have hab := hfirst b List.mem_cons_self
    unfold joinOnto
    -- either the next span is joined to this one, or there is a gap between them
    split
    · have hjoined : Fits n ⟨a.start, max a.stop b.stop⟩ :=
        ⟨Nat.lt_of_lt_of_le ha.1 (Nat.le_max_left _ _), Nat.max_le.mpr ⟨ha.2, hb.2⟩⟩
      refine ih hjoined has (List.pairwise_cons.mpr ⟨fun p hp => ?_, hrest.of_cons⟩)
      exact hfirst p (List.mem_cons_of_mem b hp)
    · rename_i hgap
      obtain ⟨hapart, hstarts⟩ := ih hb has hrest
      refine ⟨⟨List.forall_mem_cons.mpr ⟨ha, hapart.fits⟩, ?_⟩, ?_⟩
      · refine List.pairwise_cons.mpr ⟨fun p hp => ?_, hapart.before⟩
        have := hstarts p hp
        omega
      · refine List.forall_mem_cons.mpr ⟨Nat.le_refl _, fun p hp => ?_⟩
        exact Nat.le_trans hab (hstarts p hp)

theorem join_apart (hfits : ∀ p ∈ as, p.Fits n) (hsorted : as.Pairwise fun p q => le p q = true) :
    Apart n (join as) := by
  cases as with
  | nil => exact ⟨by simp [join], by simp [join]⟩
  | cons a as =>
    obtain ⟨ha, has⟩ := List.forall_mem_cons.mp hfits
    have hstarts := hsorted.imp fun {p q} (h : le p q = true) => show p.start ≤ q.start by
      rw [le_iff] at h
      omega
    exact (joinOnto_apart ha has hstarts).1

end Span

theorem origin_lt {t : Text} {p : Char × Nat} (h : p ∈ foldWithOrigins t) : p.2 < t.length := by
  obtain ⟨q, hq, hp⟩ := List.mem_flatMap.mp h
  obtain ⟨c, -, rfl⟩ := List.mem_map.mp hp
  simpa using List.snd_lt_of_mem_zipIdx hq

theorem pairwise_origins (t : Text) :
    (foldWithOrigins t).Pairwise fun p q => p.2 ≤ q.2 := by
  have hindices : t.zipIdx.Pairwise fun p q => p.2 < q.2 := by
    rw [← List.pairwise_map (f := Prod.snd) (R := (· < ·)), List.zipIdx_map_snd]
    exact List.pairwise_lt_range'
  refine List.pairwise_flatMap.mpr ⟨fun p _ => ?_, hindices.imp fun h p hp q hq => ?_⟩
  · exact List.pairwise_map.mpr (List.pairwise_of_forall fun _ _ => Nat.le_refl p.2)
  · obtain ⟨c, -, rfl⟩ := List.mem_map.mp hp
    obtain ⟨d, -, rfl⟩ := List.mem_map.mp hq
    exact Nat.le_of_lt h

theorem originSpan?_eq_some_iff {origins : List Nat} {n i : Nat} {p : Span} :
    originSpan? origins n i = some p ↔
      origins[i]? = some p.start ∧ ∃ last, origins[i + n - 1]? = some last ∧ p.stop = last + 1 := by
  obtain ⟨start, stop⟩ := p
  simp only [originSpan?, Option.bind_eq_bind, Option.bind_eq_some_iff, Option.pure_def,
    Option.some.injEq, Span.mk.injEq]
  constructor
  · rintro ⟨first, hfirst, last, hlast, rfl, rfl⟩
    exact ⟨hfirst, last, hlast, rfl⟩
  · rintro ⟨hfirst, last, hlast, rfl⟩
    exact ⟨start, hfirst, last, hlast, rfl, rfl⟩

theorem fits_of_originSpan? {t : Text} {n i : Nat} {p : Span} (hn : 0 < n)
    (h : originSpan? ((foldWithOrigins t).map (·.2)) n i = some p) : p.Fits t.length := by
  obtain ⟨hfirst, last, hlast, hstop⟩ := originSpan?_eq_some_iff.mp h
  have hsorted : ((foldWithOrigins t).map (·.2)).Pairwise (· ≤ ·) :=
    List.pairwise_map.mpr (pairwise_origins t)
  have hle : p.start ≤ last := by
    obtain ⟨hi, hstart⟩ := List.getElem?_eq_some_iff.mp hfirst
    obtain ⟨hj, rfl⟩ := List.getElem?_eq_some_iff.mp hlast
    rw [← hstart]
    rcases Nat.eq_or_lt_of_le (show i ≤ i + n - 1 by omega) with he | hlt
    · exact Nat.le_of_eq (by congr)
    · exact List.pairwise_iff_getElem.mp hsorted _ _ hi hj hlt
  obtain ⟨q, hq, rfl⟩ := List.mem_map.mp (List.mem_of_getElem? hlast)
  exact ⟨hstop ▸ Nat.lt_succ_of_le hle, hstop ▸ origin_lt hq⟩

theorem fits_of_mem_termSpans {t term : Text} {p : Span}
    (h : p ∈ termSpans (foldWithOrigins t) term) : p.Fits t.length := by
  unfold termSpans at h
  dsimp only at h
  split at h
  · simp at h
  · rename_i hne
    obtain ⟨i, -, hi⟩ := List.mem_filterMap.mp h
    exact fits_of_originSpan? (List.length_pos_iff.mpr (by simpa using hne)) hi

theorem highlightSpans_apart (t : Text) (terms : List Text) :
    Span.Apart t.length (highlightSpans t terms) := by
  refine Span.join_apart (fun p hp => ?_) (List.pairwise_mergeSort Span.le_trans Span.le_total _)
  obtain ⟨term, -, hterm⟩ := List.mem_flatMap.mp (List.mem_mergeSort.mp hp)
  exact fits_of_mem_termSpans hterm

end ArticleArchive
