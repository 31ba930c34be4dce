import ArticleArchive.Proofs.Calendar.Days
import ArticleArchive.Proofs.Query.Layout

namespace ArticleArchive

section

variable {α β : Type} {l l' : List α}

theorem eq_of_perm_of_length_le_one (h : l'.Perm l) (hl : l.length ≤ 1) : l' = l := by
  match l, hl with
  | [], _ => exact h.eq_nil
  | [a], _ => exact List.perm_singleton.mp h

theorem toList_head?_of_length_le_one (h : l.length ≤ 1) : l.head?.toList = l := by
  match l, h with
  | [], _ => rfl
  | [a], _ => rfl

theorem filterMap_cons_toList (f : α → Option β) (a : α) (l : List α) :
    (a :: l).filterMap f = (f a).toList ++ l.filterMap f := by
  simp only [List.filterMap_eq_flatMap_toList, List.flatMap_cons]

end

namespace Settles

variable {x : Except MatchError Bool} {p : Prop}

theorem exists_ok (h : Settles x False p) : ∃ b, x = .ok b := by
  obtain ⟨b, hb, -⟩ := h.2 not_false
  exact ⟨b, hb⟩

theorem eq_ok_true_iff (h : Settles x False p) : x = .ok true ↔ p := by
  obtain ⟨b, rfl, hb⟩ := h.2 not_false
  rw [← hb, Except.ok.injEq]

end Settles

namespace Clause

/-- The days that a clause names, as they are written. -/
def days : Clause → List Text
  | dates low high => [low, high]
  | range r => if r.quantity = .date then [r.value] else []
  | _ => []

theorem mem_days_of_startBound? {c : Clause} {b : DayBound} (h : c.startBound? = some b) :
    b.1 ∈ c.days := by
  cases c with
  | dates low high =>
    obtain rfl := Option.some.inj h
    exact List.mem_cons_self
  | range r =>
    obtain ⟨quantity, op, value⟩ := r
    cases quantity <;> cases op <;>
      simp_all [startBound?, Comparison.startBound?, days, eq_comm]
  | _ => simp [startBound?] at h

theorem mem_days_of_stopBound? {c : Clause} {b : DayBound} (h : c.stopBound? = some b) :
    b.1 ∈ c.days := by
  cases c with
  | dates low high =>
    obtain rfl := Option.some.inj h
    exact List.mem_cons_of_mem _ List.mem_cons_self
  | range r =>
    obtain ⟨quantity, op, value⟩ := r
    cases quantity <;> cases op <;>
      simp_all [stopBound?, Comparison.stopBound?, days, eq_comm]
  | _ => simp [stopBound?] at h

/-- Each end of an interval is set by one clause at most. -/
def SetEndsOnce (cs : List Clause) : Prop :=
  (cs.filterMap startBound?).length ≤ 1 ∧ (cs.filterMap stopBound?).length ≤ 1

end Clause

namespace DateFilter

/-- The interval between the ends that are given, each of them once at most. -/
def ofBounds (starts stops : List DayBound) : Except SyntaxError DateFilter :=
  if starts.length ≤ 1 ∧ stops.length ≤ 1 then .ok (between starts.head? stops.head?)
  else .error (.duplicateField dateField)

variable {starts starts' stops stops' : List DayBound}

theorem ofBounds_perm (hs : starts'.Perm starts) (ht : stops'.Perm stops) :
    ofBounds starts' stops' = ofBounds starts stops := by
  unfold ofBounds
  rw [hs.length_eq, ht.length_eq]
  split
  · rename_i h
    rw [eq_of_perm_of_length_le_one hs h.1, eq_of_perm_of_length_le_one ht h.2]
  · rfl

end DateFilter

namespace Query

variable {q : Query} {c : Clause} {cs : List Clause} {start stop : Option DayBound}

theorem addClause_between (hc : c.isOfDays = true) :
    addClause { q with dates := .between start stop } c =
      (DateFilter.ofBounds (start.toList ++ c.startBound?.toList)
        (stop.toList ++ c.stopBound?.toList)).map fun f => { q with dates := f } := by
  cases c with
  | dates low high => cases start <;> cases stop <;> rfl
  | range r =>
    obtain ⟨quantity, op, value⟩ := r
    obtain rfl : quantity = .date := by simpa [Clause.isOfDays] using hc
    cases op <;> cases start <;> cases stop <;> rfl
  | _ => simp [Clause.isOfDays] at hc

/-- Clauses about days add up to the ends that are set, each in its place. -/
theorem foldlM_addClause_between (hcs : ∀ c ∈ cs, c.isOfDays = true) :
    cs.foldlM addClause { q with dates := .between start stop } =
      (DateFilter.ofBounds (start.toList ++ cs.filterMap Clause.startBound?)
        (stop.toList ++ cs.filterMap Clause.stopBound?)).map fun f => { q with dates := f } := by
  induction cs generalizing start stop with
  | nil => cases start <;> cases stop <;> rfl
  | cons c cs ih =>
    obtain ⟨hc, hcs⟩ := List.forall_mem_cons.mp hcs
    rw [List.foldlM_cons, addClause_between hc, filterMap_cons_toList, filterMap_cons_toList,
      ← List.append_assoc, ← List.append_assoc]
    generalize start.toList ++ c.startBound?.toList = starts
    generalize stop.toList ++ c.stopBound?.toList = stops
    by_cases h : starts.length ≤ 1 ∧ stops.length ≤ 1
    · rw [DateFilter.ofBounds, if_pos h]
      refine (ih hcs).trans ?_
      rw [toList_head?_of_length_le_one h.1, toList_head?_of_length_le_one h.2]
    -- an end that is set twice stays so
    · have hlater : ¬ ((starts ++ cs.filterMap Clause.startBound?).length ≤ 1 ∧
          (stops ++ cs.filterMap Clause.stopBound?).length ≤ 1) := by
        simp only [List.length_append]
        omega
      rw [DateFilter.ofBounds, if_neg h, DateFilter.ofBounds, if_neg hlater]
      rfl

theorem foldlM_addClause_days (hcs : ∀ c ∈ cs, c.isOfDays = true) :
    cs.foldlM addClause {} =
      (DateFilter.ofBounds (cs.filterMap Clause.startBound?)
        (cs.filterMap Clause.stopBound?)).map fun f => { dates := f } :=
  @foldlM_addClause_between {} cs none none hcs

theorem foldlM_addClause_days_cases (hcs : ∀ c ∈ cs, c.isOfDays = true) :
    Clause.SetEndsOnce cs ∧ (∃ f, cs.foldlM addClause {} = .ok { dates := f }) ∨
      ¬ Clause.SetEndsOnce cs ∧ cs.foldlM addClause {} = .error (.duplicateField dateField) := by
  rw [foldlM_addClause_days hcs, DateFilter.ofBounds]
  unfold Clause.SetEndsOnce
  split
  · rename_i h
    exact .inl ⟨h, _, rfl⟩
  · rename_i h
    exact .inr ⟨h, rfl⟩

theorem mem_days_of_bounds {f : DateFilter} (h : f.Bounds cs) {t : Text}
    (ht : t ∈ f.start ∨ t ∈ f.stop) : ∃ c ∈ cs, t ∈ c.days := by
  obtain ⟨start, stop, hstart, hstop, rfl⟩ := h
  rcases ht with ht | ht
  · obtain ⟨b, rfl, rfl⟩ := Option.map_eq_some_iff.mp ht
    have hb : b ∈ cs.filterMap Clause.startBound? := by simp [hstart]
    obtain ⟨c, hc, hcb⟩ := List.mem_filterMap.mp hb
    exact ⟨c, hc, Clause.mem_days_of_startBound? hcb⟩
  · obtain ⟨b, rfl, rfl⟩ := Option.map_eq_some_iff.mp ht
    have hb : b ∈ cs.filterMap Clause.stopBound? := by simp [hstop]
    obtain ⟨c, hc, hcb⟩ := List.mem_filterMap.mp hb
    exact ⟨c, hc, Clause.mem_days_of_stopBound? hcb⟩

theorem holds_of_dates {f : DateFilter} {a : Article} :
    Query.Holds { dates := f } a ↔ f.Holds a.createdAt.date := by
  simp [Query.Holds]

theorem settles_accepts_of_days (hc : c.isOfDays = true)
    (hmark : ∀ r, c = .range r → r.op.isKnown = true) (hdays : ∀ t ∈ c.days, t.IsDay)
    (a : Article) :
    Settles (c.accepts a (SearchText.ofArticle a)) False (c.Holds a) := by
  cases c with
  | dates low high =>
    exact Clause.settles_dayWithin_of_days
      (Date.exists_ofText?_iff.mpr (hdays low (by simp [Clause.days])))
      (Date.exists_ofText?_iff.mpr (hdays high (by simp [Clause.days]))) a
  | range r =>
    obtain ⟨quantity, op, value⟩ := r
    obtain rfl : quantity = .date := by simpa [Clause.isOfDays] using hc
    obtain ⟨d, hd⟩ := Date.exists_ofText?_iff.mpr (hdays value (by simp [Clause.days]))
    exact RangeClause.settles_compareDay (hmark _ rfl) a hd
  | _ => simp [Clause.isOfDays] at hc

/-- Whether clauses about days are accepted together, and the interval that they amount to, do not
depend on their order; they are, just if none of the two ends is set twice. A day lies in the
interval just if each of the clauses on its own accepts it. -/
theorem dates_of_clauses (hcs : ∀ c ∈ cs, c.isOfDays = true)
    (hmarks : ∀ r, Clause.range r ∈ cs → r.op.isKnown = true) :
    (∀ ds : List Clause, ds.Perm cs → ds.foldlM addClause {} = cs.foldlM addClause {}) ∧
    (Clause.SetEndsOnce cs ∧ (∃ f, cs.foldlM addClause {} = .ok { dates := f }) ∨
      ¬ Clause.SetEndsOnce cs ∧ cs.foldlM addClause {} = .error (.duplicateField dateField)) ∧
    ∀ f, cs.foldlM addClause {} = .ok { dates := f } →
      (f.isEmpty = true ↔ cs = []) ∧
      ((∀ c ∈ cs, ∀ t ∈ c.days, t.IsDay) → ∀ a : Article,
        (∀ c ∈ cs, ∃ b, c.accepts a (SearchText.ofArticle a) = .ok b) ∧
        ∃ b, f.contains a.createdAt.date = .ok b ∧
          (b = true ↔ ∀ c ∈ cs, c.accepts a (SearchText.ofArticle a) = .ok true)) := by
  refine ⟨fun ds hperm => ?_, foldlM_addClause_days_cases hcs,
    fun f hf => ⟨?_, fun hdays a => ?_⟩⟩
  · have hds : ∀ c ∈ ds, c.isOfDays = true := fun c hc => hcs c (hperm.subset hc)
    rw [foldlM_addClause_days hds, foldlM_addClause_days hcs,
      DateFilter.ofBounds_perm (hperm.filterMap _) (hperm.filterMap _)]
  · have hbounds : f.Bounds cs := ((keeps_nil [] none).foldlM_addClause hf).dates
    rw [hbounds.isEmpty_iff, List.eq_nil_iff_forall_not_mem]
    exact forall_congr' fun c => ⟨fun h hc => by simp [hcs c hc] at h; exact h hc,
      fun h hc => absurd hc h⟩
  · have hbounds : f.Bounds cs := ((keeps_nil [] none).foldlM_addClause hf).dates
    have hreadable {t : Text} (ht : t ∈ f.start ∨ t ∈ f.stop) : ∃ d, Date.ofText? t = some d := by
      obtain ⟨c, hc, hct⟩ := mem_days_of_bounds hbounds ht
      exact Date.exists_ofText?_iff.mpr (hdays c hc t hct)
    -- the interval holds just if every clause does, and both can be tested
    have hcollects := collects_of_foldlM hf fun c hc r hr => hmarks r (hr ▸ hc)
    have hholds : f.Holds a.createdAt.date ↔ ∀ c ∈ cs, c.Holds a := by
      rw [← holds_of_dates, hcollects.holds, holds_of_dates]
      simp [DateFilter.Holds]
    have haccepts : ∀ c ∈ cs, Settles (c.accepts a (SearchText.ofArticle a)) False (c.Holds a) :=
      fun c hc => settles_accepts_of_days (hcs c hc) (fun r hr => hmarks r (hr ▸ hc)) (hdays c hc) a
    obtain ⟨b, hb, hiff⟩ := (DateFilter.settles_contains_of_days a.createdAt.date
      (fun t ht => hreadable (.inl ht)) fun t ht => hreadable (.inr ht)).2 not_false
    refine ⟨fun c hc => (haccepts c hc).exists_ok, b, hb, ?_⟩
    rw [hiff, hholds]
    exact forall₂_congr fun c hc => (haccepts c hc).eq_ok_true_iff.symm

/-- The first day of a half-open interval lies in it, whichever of its ends is given first. -/
theorem dates_of_clauses_first_day :
    let first : Date := ⟨2024, 1, 10, by decide, by decide, by decide⟩
    let cs : List Clause :=
      [.range ⟨.date, .ge, "2024-01-10".toList⟩, .range ⟨.date, .lt, "2024-02-01".toList⟩]
    let f : DateFilter :=
      { start := some "2024-01-10".toList, stop := some "2024-02-01".toList, stopIncluded := false }
    let a : Article :=
      { id := 1, title := "t".toList, content := [], summary := [], category := none,
        createdAt := .midnight first, viewCount := 0, localizations := [] }
    (∀ c ∈ cs, c.isOfDays = true) ∧ (∀ r, Clause.range r ∈ cs → r.op.isKnown = true) ∧
      cs.reverse.foldlM addClause {} = .ok { dates := f } ∧
        f.contains a.createdAt.date = .ok true := by
  intro first cs f a
  let after : Date := ⟨2024, 2, 1, by decide, by decide, by decide⟩
  have hfirst : Date.ofText? "2024-01-10".toList = some first := rfl
  have hafter : Date.ofText? "2024-02-01".toList = some after := rfl
  have hcs : ∀ c ∈ cs, c.isOfDays = true := by decide
  have hmarks : ∀ r, Clause.range r ∈ cs → r.op.isKnown = true := by
    intro r hr
    simp only [cs, List.mem_cons, List.not_mem_nil, or_false, Clause.range.injEq] at hr
    rcases hr with rfl | rfl <;> rfl
  have hclauses : ∀ c ∈ cs, (∀ t ∈ c.days, t.IsDay) ∧ c.Holds a := by
    intro c hc
    simp only [cs, List.mem_cons, List.not_mem_nil, or_false] at hc
    rcases hc with rfl | rfl
    · refine ⟨fun t ht => ?_, first, hfirst, by decide⟩
      obtain rfl := List.mem_singleton.mp ht
      exact Date.exists_ofText?_iff.mp ⟨first, hfirst⟩
    · refine ⟨fun t ht => ?_, after, hafter, by decide⟩
      obtain rfl := List.mem_singleton.mp ht
      exact Date.exists_ofText?_iff.mp ⟨after, hafter⟩
  have hf : cs.foldlM addClause {} = .ok { dates := f } := rfl
  obtain ⟨horder, -, hinterval⟩ := dates_of_clauses hcs hmarks
  obtain ⟨-, b, hb, hiff⟩ := (hinterval f hf).2 (fun c hc => (hclauses c hc).1) a
  obtain rfl := hiff.mpr fun c hc => (settles_accepts_of_days (hcs c hc)
    (fun r hr => hmarks r (hr ▸ hc)) (hclauses c hc).1 a).eq_ok_true_iff.mpr (hclauses c hc).2
  exact ⟨hcs, hmarks, (horder _ cs.reverse_perm).trans hf, hb⟩

end Query

end ArticleArchive
