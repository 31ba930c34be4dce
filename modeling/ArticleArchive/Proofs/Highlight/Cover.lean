import ArticleArchive.Proofs.Highlight.Matches

namespace ArticleArchive

/-- One of the spans holds the character at an index. -/
def Span.Covers (ps : List Span) (i : Nat) : Prop :=
  ∃ p ∈ ps, p.start ≤ i ∧ i < p.stop

namespace Span

variable {n i : Nat} {p q : Span} {ps qs as bs : List Span}

theorem covers_cons : Covers (p :: ps) i ↔ (p.start ≤ i ∧ i < p.stop) ∨ Covers ps i :=
  List.exists_mem_cons_iff _ _ _

theorem covers_of_perm (h : ps.Perm qs) : Covers ps i ↔ Covers qs i := by
  simp only [Covers, h.mem_iff]

theorem covers_joinOnto (hsorted : (p :: ps).Pairwise fun a b => a.start ≤ b.start) :
    Covers (joinOnto p ps) i ↔ Covers (p :: ps) i := by
  induction ps generalizing p with
  | nil => rfl
  | cons b ps ih =>
    obtain ⟨hfirst, hrest⟩ := List.pairwise_cons.mp hsorted
    have hpb := hfirst b List.mem_cons_self
    unfold joinOnto
    split
    · have hsorted : (⟨p.start, max p.stop b.stop⟩ :: ps : List Span).Pairwise
          fun a b => a.start ≤ b.start :=
        List.pairwise_cons.mpr ⟨fun q hq => hfirst q (List.mem_cons_of_mem b hq), hrest.of_cons⟩
      rw [ih hsorted, covers_cons, covers_cons, covers_cons, ← or_assoc]
      refine or_congr_left ?_
      dsimp only
      omega
    · rw [covers_cons, ih hrest, ← covers_cons]

theorem covers_join (hsorted : as.Pairwise fun a b => le a b = true) :
    Covers (join as) i ↔ Covers as i := by
  cases as with
  | nil => rfl
  | cons a as =>
    refine covers_joinOnto (hsorted.imp fun h => ?_)
    rw [le_iff] at h
    omega

theorem Apart.tail (h : Apart n (p :: ps)) : Apart n ps :=
  ⟨fun q hq => h.fits q (List.mem_cons_of_mem p hq), h.before.of_cons⟩

theorem Apart.lt_of_covers (h : Apart n (p :: ps)) (hi : Covers ps i) : p.stop < i := by
  obtain ⟨q, hq, hstart, -⟩ := hi
  exact Nat.lt_of_lt_of_le (List.rel_of_pairwise_cons h.before hq) hstart

theorem Apart.start_le (h : Apart n (p :: ps)) (hi : Covers (p :: ps) i) : p.start ≤ i := by
  rcases covers_cons.mp hi with hi | hi
  · exact hi.1
  · have := h.lt_of_covers hi
    have := (h.fits p List.mem_cons_self).1
    omega

theorem Apart.covers_start (h : Apart n (p :: ps)) : Covers (p :: ps) p.start :=
  covers_cons.mpr (.inl ⟨Nat.le_refl _, (h.fits p List.mem_cons_self).1⟩)

theorem Apart.not_covers_stop (h : Apart n (p :: ps)) : ¬ Covers (p :: ps) p.stop := by
  intro hi
  rcases covers_cons.mp hi with hi | hi
  · exact Nat.lt_irrefl _ hi.2
  · exact Nat.lt_irrefl _ (h.lt_of_covers hi)

theorem Apart.covers_tail_iff (h : Apart n (p :: ps)) :
    Covers ps i ↔ Covers (p :: ps) i ∧ p.stop ≤ i := by
  rw [covers_cons]
  constructor
  · exact fun hi => ⟨.inr hi, Nat.le_of_lt (h.lt_of_covers hi)⟩
  · rintro ⟨hi | hi, hstop⟩
    · omega
    · exact hi

theorem Apart.stop_le (hq : Apart n (q :: qs)) (hstart : p.start = q.start)
    (h : ∀ i, Covers (p :: ps) i ↔ Covers (q :: qs) i) : p.stop ≤ q.stop := by
  by_contra hlt
  refine hq.not_covers_stop ((h _).mp (covers_cons.mpr (.inl ?_)))
  have := (hq.fits q List.mem_cons_self).1
  omega

theorem Apart.eq_of_covers (hp : Apart n ps) (hq : Apart n qs)
    (h : ∀ i, Covers ps i ↔ Covers qs i) : ps = qs := by
  induction ps generalizing qs with
  | nil =>
    cases qs with
    | nil => rfl
    | cons q qs => simpa [Covers] using (h _).mpr hq.covers_start
  | cons p ps ih =>
    cases qs with
    | nil => simpa [Covers] using (h _).mp hp.covers_start
    | cons q qs =>
      -- both first spans start at the first character that is covered
      have hstart : p.start = q.start :=
        Nat.le_antisymm (hp.start_le ((h _).mpr hq.covers_start))
          (hq.start_le ((h _).mp hp.covers_start))
      have hstop : p.stop = q.stop :=
        Nat.le_antisymm (hq.stop_le hstart h) (hp.stop_le hstart.symm fun i => (h i).symm)
      have hhead : p = q := by
        cases p
        cases q
        simp_all
      have htail : ps = qs := ih hp.tail hq.tail fun i => by
        rw [hp.covers_tail_iff, hq.covers_tail_iff, h, hstop]
      rw [hhead, htail]

end Span

namespace Text

theorem foldChar_ne_nil (c : Char) : foldChar c ≠ [] := by
  have hexpansions : ∀ e ∈ foldExpansions, e.2 ≠ [] := by decide
  unfold foldChar
  split
  · simp
  · split
    · simp
    · split
      · rename_i ns hns
        obtain ⟨before, after, hsplit, -⟩ := List.lookup_eq_some_iff.mp hns
        simpa using hexpansions (c.toNat, ns) (by simp [hsplit])
      · simp

theorem length_fold_take_mono (t : Text) {i j : Nat} (h : i ≤ j) :
    (fold (t.take i)).length ≤ (fold (t.take j)).length := by
  obtain ⟨rest, hrest⟩ := List.take_prefix_take_left (l := t) h
  rw [← hrest, fold_append, List.length_append]
  omega

theorem length_fold_take_lt {t : Text} {i : Nat} (h : i < t.length) :
    (fold (t.take i)).length < (fold (t.take (i + 1))).length := by
  have := List.length_pos_iff.mpr (foldChar_ne_nil t[i])
  rw [List.take_succ_eq_append_getElem h, fold_append, List.length_append]
  simpa using this

theorem foldChar_letter (c : Char) :
    foldChar c.toUpper = foldChar c ∧ foldChar c.toLower = foldChar c := by
  rcases Nat.lt_or_ge c.toNat 128 with h | h
  · have hascii : ∀ n < 128, foldChar (Char.ofNat n).toUpper = foldChar (Char.ofNat n) ∧
        foldChar (Char.ofNat n).toLower = foldChar (Char.ofNat n) := by
      decide +kernel
    simpa using hascii c.toNat h
  · have hlast {m : Char} (hm : m.toNat < 128) : ¬ c.val ≤ m.val := by
      rw [UInt32.le_iff_toNat_le]
      exact Nat.not_le.mpr (Nat.lt_of_lt_of_le hm h)
    have hupper : c.toUpper = c := dif_neg fun hc => hlast (by decide) hc.2
    have hlower : c.toLower = c := dif_neg fun hc => hlast (by decide) hc.2
    rw [hupper, hlower]
    exact ⟨rfl, rfl⟩

theorem fold_map_toUpper (t : Text) : fold (t.map Char.toUpper) = fold t := by
  induction t with
  | nil => rfl
  | cons c t ih => rw [List.map_cons, fold_cons, fold_cons, ih, (foldChar_letter c).1]

theorem fold_map_toLower (t : Text) : fold (t.map Char.toLower) = fold t := by
  induction t with
  | nil => rfl
  | cons c t ih => rw [List.map_cons, fold_cons, fold_cons, ih, (foldChar_letter c).2]

/-- The folded character at an index comes from the character at another one. -/
def FoldsInto (t : Text) (i j : Nat) : Prop :=
  (fold (t.take i)).length ≤ j ∧ j < (fold (t.take (i + 1))).length

/-- An occurrence of a text in the fold of another one has a part in the fold of the character at an
index. -/
def Touches (needle t : Text) (i : Nat) : Prop :=
  ∃ k, needle <+: (fold t).drop k ∧ ∃ j, k ≤ j ∧ j < k + needle.length ∧ FoldsInto t i j

end Text

theorem covers_originSpan? {t : Text} {n k i : Nat} {p : Span} (hn : 0 < n)
    (h : originSpan? ((foldWithOrigins t).map (·.2)) n k = some p) :
    p.start ≤ i ∧ i < p.stop ↔ ∃ j, k ≤ j ∧ j < k + n ∧ Text.FoldsInto t i j := by
  have hfits := fits_of_originSpan? hn h
  obtain ⟨hfirst, last, hlast, hstop⟩ := originSpan?_eq_some_iff.mp h
  rw [List.getElem?_map] at hfirst hlast
  obtain ⟨a, ha, hastart⟩ := Option.map_eq_some_iff.mp hfirst
  obtain ⟨b, hb, rfl⟩ := Option.map_eq_some_iff.mp hlast
  have ha := length_fold_take_of_origin ha
  have hb := length_fold_take_of_origin hb
  rw [hastart] at ha
  constructor
  · rintro ⟨hstart, hi⟩
    have hown := Text.length_fold_take_lt (Nat.lt_of_lt_of_le hi hfits.2)
    have hfrom := Text.length_fold_take_mono t (show p.start + 1 ≤ i + 1 by omega)
    have hto := Text.length_fold_take_mono t (show i ≤ b.2 by omega)
    -- the first folded character that is in both the occurrence and the fold at `i`
    refine ⟨max k (Text.fold (t.take i)).length, Nat.le_max_left _ _, by omega,
      Nat.le_max_right _ _, by omega⟩
  · rintro ⟨j, hkj, hjk, hfrom, hto⟩
    constructor
    · by_contra hlt
      have := Text.length_fold_take_mono t (show i + 1 ≤ p.start by omega)
      omega
    · by_contra hle
      have := Text.length_fold_take_mono t (show b.2 + 1 ≤ i by omega)
      omega

theorem covers_termSpans_iff {t term : Text} {i : Nat} :
    Span.Covers (termSpans (foldWithOrigins t) term) i ↔
      Text.fold term ≠ [] ∧ Text.Touches (Text.fold term) t i := by
  constructor
  · rintro ⟨p, hp, hi⟩
    obtain ⟨hne, k, hk, hspan⟩ := mem_termSpans_iff.mp hp
    exact ⟨hne, k, hk, (covers_originSpan? (List.length_pos_iff.mpr hne) hspan).mp hi⟩
  · rintro ⟨hne, k, hk, hj⟩
    obtain ⟨p, hspan⟩ := exists_originSpan? hne hk
    exact ⟨p, mem_termSpans_iff.mpr ⟨hne, k, hk, hspan⟩,
      (covers_originSpan? (List.length_pos_iff.mpr hne) hspan).mpr hj⟩

theorem covers_highlightSpans_iff {t : Text} {terms : List Text} {i : Nat} :
    Span.Covers (highlightSpans t terms) i ↔
      ∃ term ∈ terms, Text.fold term ≠ [] ∧ Text.Touches (Text.fold term) t i := by
  rw [highlightSpans, Span.covers_join (List.pairwise_mergeSort Span.le_trans Span.le_total _),
    Span.covers_of_perm (List.mergeSort_perm _ _)]
  simp only [← covers_termSpans_iff, Span.Covers, List.mem_flatMap]
  constructor
  · rintro ⟨p, ⟨term, hterm, hp⟩, hi⟩
    exact ⟨term, hterm, p, hp, hi⟩
  · rintro ⟨term, hterm, p, hp, hi⟩
    exact ⟨p, ⟨term, hterm, hp⟩, hi⟩

theorem highlightSpans_congr {terms terms' : List Text} (t : Text)
    (h : ∀ f, f ≠ [] →
      ((∃ term ∈ terms, Text.fold term = f) ↔ ∃ term ∈ terms', Text.fold term = f)) :
    highlightSpans t terms = highlightSpans t terms' := by
  refine (highlightSpans_apart t terms).eq_of_covers (highlightSpans_apart t terms') fun i => ?_
  rw [covers_highlightSpans_iff, covers_highlightSpans_iff]
  constructor
  · rintro ⟨term, hterm, hne, hi⟩
    obtain ⟨term', hterm', he⟩ := (h _ hne).mp ⟨term, hterm, rfl⟩
    exact ⟨term', hterm', he ▸ hne, he ▸ hi⟩
  · rintro ⟨term, hterm, hne, hi⟩
    obtain ⟨term', hterm', he⟩ := (h _ hne).mpr ⟨term, hterm, rfl⟩
    exact ⟨term', hterm', he ▸ hne, he ▸ hi⟩

/-- The places of terms are spans in the text with a character between any two of them. A character
is covered if and only if an occurrence of a folded term in the folded text has a part in its fold,
and no other spans that are apart from each other cover the same. So neither the order nor the
repetition nor the case of the terms makes a difference. -/
theorem highlightSpans_cover (t : Text) (terms : List Text) :
    Span.Apart t.length (highlightSpans t terms) ∧
    (∀ i, Span.Covers (highlightSpans t terms) i ↔
      ∃ term ∈ terms, Text.fold term ≠ [] ∧ Text.Touches (Text.fold term) t i) ∧
    (∀ ps, Span.Apart t.length ps →
      (∀ i, Span.Covers ps i ↔ Span.Covers (highlightSpans t terms) i) →
      ps = highlightSpans t terms) ∧
    (∀ terms', (∀ f, f ≠ [] →
      ((∃ term ∈ terms', Text.fold term = f) ↔ ∃ term ∈ terms, Text.fold term = f)) →
      highlightSpans t terms' = highlightSpans t terms) ∧
    highlightSpans t (terms.map fun term => term.map Char.toUpper) = highlightSpans t terms ∧
    highlightSpans t (terms.map fun term => term.map Char.toLower) = highlightSpans t terms := by
  refine ⟨highlightSpans_apart t terms, fun i => covers_highlightSpans_iff,
    fun ps hps h => hps.eq_of_covers (highlightSpans_apart t terms) h,
    fun terms' h => highlightSpans_congr t h, ?_, ?_⟩
  · exact highlightSpans_congr t fun f _ => by simp [Text.fold_map_toUpper]
  · exact highlightSpans_congr t fun f _ => by simp [Text.fold_map_toLower]

end ArticleArchive
