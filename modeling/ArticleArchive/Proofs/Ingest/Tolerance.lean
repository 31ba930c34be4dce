import ArticleArchive.Ingest.Batch
import ArticleArchive.Proofs.Article.Unconvertible

namespace ArticleArchive

/-- A row whose fields no rule refuses and that still gives no article. -/
def RowBreaks (row : Json) (u : Unconvertible) : Prop :=
  ∃ fields, row = .obj fields ∧ (Draft.ofFields fields).Breaks u

/-- A row becomes an article or is one to pass over. -/
def RowHolds (row : Json) : Prop :=
  ∀ u, ¬ RowBreaks row u

theorem RowResult.ofValue_eq_unconvertible_iff {row : Json} {u : Unconvertible} :
    ofValue row = .unconvertible u ↔ RowBreaks row u := by
  cases row with
  | obj fields =>
    simp only [RowBreaks, Json.obj.injEq, exists_eq_left', ← Article.ofDraft_eq_unconvertible_iff]
    unfold ofValue Article.ofFields
    dsimp only
    split <;> simp_all
  | _ => simp [ofValue, RowBreaks]

theorem rowsHold_or_exists_first (rows : List Json) :
    (∀ row ∈ rows, RowHolds row) ∨ ∃ before row after u, rows = before ++ row :: after ∧
      (∀ r ∈ before, RowHolds r) ∧ RowBreaks row u := by
  induction rows with
  | nil => exact .inl (by simp)
  | cons row rows ih =>
    by_cases hrow : ∃ u, RowBreaks row u
    · obtain ⟨u, hu⟩ := hrow
      exact .inr ⟨[], row, rows, u, rfl, by simp, hu⟩
    · have hrow : RowHolds row := fun u hu => hrow ⟨u, hu⟩
      rcases ih with h | ⟨before, r, after, u, rfl, hbefore, hr⟩
      · exact .inl (List.forall_mem_cons.mpr ⟨hrow, h⟩)
      · exact .inr ⟨row :: before, r, after, u, rfl, List.forall_mem_cons.mpr ⟨hrow, hbefore⟩, hr⟩

namespace Batch

/-- The batch accounts for the rows: its articles are those of some of them in their order, the
others are counted as passed over, and each of these that gives an article repeats an identifier. -/
structure Accounts (b : Batch) (rows : List Json) : Prop where
  kept : ∃ kept : List Json, kept.Sublist rows ∧
    kept.map RowResult.ofValue = b.articles.reverse.map .article
  total : b.articles.length + b.skipped = rows.length
  taken : ∀ row ∈ rows, ∀ x, RowResult.ofValue row = .article x → ∃ y ∈ b.articles, y.id = x.id

theorem Accounts.empty : Accounts {} [] :=
  ⟨⟨[], .refl [], rfl⟩, rfl, by simp⟩

variable {b : Batch} {seen : List Json} {row : Json}

theorem Accounts.skip (h : b.Accounts seen) (notes : List LogRecord)
    (hrow : ∀ x, RowResult.ofValue row = .article x → ∃ y ∈ b.articles, y.id = x.id) :
    ∃ b', { b with notes }.skip true row = (b', none) ∧ b'.Accounts (seen ++ [row]) := by
  obtain ⟨kept, hsub, hkept⟩ := h.kept
  have htotal := h.total
  refine ⟨_, rfl, ⟨kept, hsub.trans (List.sublist_append_left seen [row]), hkept⟩, ?_, ?_⟩
  · simp only [List.length_append, List.length_cons, List.length_nil]
    omega
  · exact List.forall_mem_append.mpr ⟨h.taken, by simpa using hrow⟩

theorem Accounts.take (h : b.Accounts seen) {a : Article}
    (ha : RowResult.ofValue row = .article a) :
    Accounts { b with articles := a :: b.articles } (seen ++ [row]) := by
  obtain ⟨kept, hsub, hkept⟩ := h.kept
  have htotal := h.total
  refine ⟨⟨kept ++ [row], hsub.append (.refl [row]), ?_⟩, ?_, ?_⟩
  · simp [hkept, ha]
  · simp only [List.length_append, List.length_cons, List.length_nil]
    omega
  · intro r hr x hx
    rcases List.mem_append.mp hr with hr | hr
    · obtain ⟨y, hy, hid⟩ := h.taken r hr x hx
      exact ⟨y, List.mem_cons_of_mem a hy, hid⟩
    · obtain rfl : r = row := by simpa using hr
      obtain rfl : a = x := RowResult.article.inj (ha.symm.trans hx)
      exact ⟨a, List.mem_cons_self, rfl⟩

theorem addRow_of_holds (h : b.Accounts seen) (hrow : RowHolds row) :
    ∃ b', b.addRow true row = (b', none) ∧ b'.Accounts (seen ++ [row]) := by
  unfold addRow
  split
  · rename_i a ha
    split
    · rename_i hany
      refine h.skip _ fun x hx => ?_
      obtain rfl : a = x := RowResult.article.inj (ha.symm.trans hx)
      simpa using hany
    · exact ⟨_, rfl, h.take ha⟩
  · rename_i notes hinvalid
    refine h.skip _ fun x hx => ?_
    rw [hinvalid] at hx
    simp at hx
  · rename_i u hu
    exact absurd (RowResult.ofValue_eq_unconvertible_iff.mp hu) (hrow u)

theorem addRow_of_breaks {u : Unconvertible} (tolerant : Bool) (h : RowBreaks row u) :
    b.addRow tolerant row = (b, some (.unconvertible u)) := by
  rw [addRow, RowResult.ofValue_eq_unconvertible_iff.mpr h]

@[simp]
theorem run_nil (tolerant : Bool) (b : Batch) : run tolerant b [] = b.finish :=
  rfl

/-- Rows that are taken in or passed over one after the other lead on to the batch that follows from
the last of them, with all that each of them keeps. -/
theorem run_append {tolerant : Bool} {P : Batch → List Json → Prop} {Q : List Json → Json → Prop}
    (hstep : ∀ {b seen row}, P b seen → Q seen row →
      ∃ b', b.addRow tolerant row = (b', none) ∧ P b' (seen ++ [row]))
    {before : List Json} (h : P b seen)
    (hbefore : ∀ pre row post, before = pre ++ row :: post → Q (seen ++ pre) row) :
    ∃ b', (∀ rows, run tolerant b (before ++ rows) = run tolerant b' rows) ∧
      P b' (seen ++ before) := by
  induction before generalizing b seen with
  | nil => exact ⟨b, fun _ => rfl, by simpa using h⟩
  | cons row before ih =>
    have hrow : Q seen row := by simpa using hbefore [] row before rfl
    obtain ⟨b₁, h₁, hb₁⟩ := hstep h hrow
    obtain ⟨b', hrun, hb'⟩ := ih hb₁ fun pre r post hsplit => by
      simpa using hbefore (row :: pre) r post (by rw [hsplit, List.cons_append])
    refine ⟨b', fun rows => ?_, by simpa using hb'⟩
    rw [List.cons_append, run, h₁]
    exact hrun rows

theorem run_append_of_hold {before : List Json} (h : b.Accounts seen)
    (hbefore : ∀ row ∈ before, RowHolds row) :
    ∃ b', (∀ rows, run true b (before ++ rows) = run true b' rows) ∧ b'.Accounts (seen ++ before) :=
  run_append (Q := fun _ row => RowHolds row) addRow_of_holds h
    fun pre row post hsplit => hbefore row (by simp [hsplit])

theorem run_of_hold {rows : List Json} (hrows : ∀ row ∈ rows, RowHolds row) :
    ∃ b : Batch, run true {} rows = b.finish ∧ b.Accounts rows := by
  obtain ⟨b, hrun, hb⟩ := run_append_of_hold .empty hrows
  exact ⟨b, by simpa using hrun [], hb⟩

theorem run_of_breaks {before : List Json} {u : Unconvertible}
    (hbefore : ∀ row ∈ before, RowHolds row) (hrow : RowBreaks row u) (after : List Json) :
    ∃ b : Batch, run true {} (before ++ row :: after) = b.fail (.unconvertible u) ∧
      b.Accounts before := by
  obtain ⟨b, hrun, hb⟩ := run_append_of_hold .empty hbefore
  refine ⟨b, ?_, hb⟩
  rw [hrun, run, addRow_of_breaks true hrow]

end Batch

namespace Ingestion

/-- A tolerant batch ends with articles exactly if no row breaks. They are then those of some rows
in their order, with every identifier that a row gives an article of, and the last report says how
many there are and how many rows were passed over, which together is all of them. Otherwise the
batch ends as the first row that breaks does. -/
theorem tolerant_ends_iff_rows_hold (rows : List Json) :
    ((∃ as, (ofRows true rows).result = .ok as) ↔ ∀ row ∈ rows, RowHolds row) ∧
    (∀ as, (ofRows true rows).result = .ok as →
      (∃ kept : List Json, kept.Sublist rows ∧ kept.map RowResult.ofValue = as.map .article) ∧
      (∀ row ∈ rows, ∀ x, RowResult.ofValue row = .article x → ∃ y ∈ as, y.id = x.id) ∧
      ∃ skipped, as.length + skipped = rows.length ∧
        (ofRows true rows).notes.getLast? =
          some (.info ("Ingested articles: OK=".toList ++ Nat.toDigits 10 as.length ++
            " SKIP=".toList ++ Nat.toDigits 10 skipped))) ∧
    ∀ e, (ofRows true rows).result = .error e →
      ∃ before row after u, rows = before ++ row :: after ∧ (∀ r ∈ before, RowHolds r) ∧
        RowBreaks row u ∧ e = .unconvertible u := by
  -- all rows hold, or there is a first one that breaks and ends the batch
  rcases rowsHold_or_exists_first rows with hrows | ⟨before, row, after, u, rfl, hbefore, hrow⟩
  · obtain ⟨b, hrun, hb⟩ := Batch.run_of_hold hrows
    have hresult : (ofRows true rows).result = .ok b.articles.reverse := by
      rw [ofRows, hrun]
      rfl
    have hnotes : (ofRows true rows).notes = b.notes.reverse ++ [b.summary] := by
      rw [ofRows, hrun]
      simp [Batch.finish, Batch.note]
    refine ⟨iff_of_true ⟨_, hresult⟩ hrows, fun as has => ?_, fun e he => ?_⟩
    · obtain rfl : b.articles.reverse = as := Except.ok.inj (hresult.symm.trans has)
      refine ⟨hb.kept, by simpa using hb.taken, b.skipped, by simpa using hb.total, ?_⟩
      rw [hnotes, List.getLast?_concat, List.length_reverse]
      rfl
    · rw [hresult] at he
      simp at he
  · obtain ⟨b, hrun, -⟩ := Batch.run_of_breaks hbefore hrow after
    have hresult : (ofRows true (before ++ row :: after)).result = .error (.unconvertible u) := by
      rw [ofRows, hrun]
      rfl
    refine ⟨iff_of_false ?_ ?_, fun as has => ?_, fun e he => ?_⟩
    · rintro ⟨as, has⟩
      rw [hresult] at has
      simp at has
    · intro hall
      exact hall row (by simp) u hrow
    · rw [hresult] at has
      simp at has
    · exact ⟨before, row, after, u, rfl, hbefore, hrow,
        (Except.error.inj (hresult.symm.trans he)).symm⟩

example : (ofRows true [.obj [(Draft.idKey, .str "\u00B2".toList)]]).result =
    .error (.unconvertible .numeral) := rfl

end Ingestion

end ArticleArchive
