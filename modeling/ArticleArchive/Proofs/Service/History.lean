import Mathlib.Data.List.Nodup
import ArticleArchive.Proofs.Article.NormalForm
import ArticleArchive.Service.Http

namespace ArticleArchive

/-- The articles have different identifiers and are in normal form. -/
structure Orderly (as : List Article) : Prop where
  ids : (as.map (·.id)).Nodup
  normal : ∀ x ∈ as, x.IsNormal

namespace Orderly

variable {as bs : List Article} {x : Article}

theorem nil : Orderly [] :=
  ⟨List.nodup_nil, by simp⟩

theorem perm (h : Orderly as) (hp : as.Perm bs) : Orderly bs :=
  ⟨(hp.map (·.id)).nodup_iff.mp h.ids, fun x hx => h.normal x (hp.mem_iff.mpr hx)⟩

theorem cons (h : Orderly as) (hx : x.IsNormal) (hnew : ∀ y ∈ as, y.id ≠ x.id) :
    Orderly (x :: as) where
  ids := by
    refine List.nodup_cons.mpr ⟨fun hm => ?_, h.ids⟩
    obtain ⟨y, hy, hid⟩ := List.mem_map.mp hm
    exact hnew y hy hid
  normal := List.forall_mem_cons.mpr ⟨hx, h.normal⟩

theorem snoc (h : Orderly as) (hx : x.IsNormal) (hnew : ∀ y ∈ as, y.id ≠ x.id) :
    Orderly (as ++ [x]) :=
  (h.cons hx hnew).perm (List.perm_append_singleton x as).symm

end Orderly

theorem RowResult.isNormal_of_article {row : Json} {x : Article} (h : ofValue row = .article x) :
    x.IsNormal := by
  unfold ofValue at h
  split at h
  · split at h
    · rename_i fields _ hx
      obtain rfl := RowResult.article.inj h
      exact Article.isNormal_of_ofDraft hx
    · simp at h
    · simp at h
  · simp at h

namespace Batch

variable {b : Batch}

theorem articles_skip (b : Batch) (tolerant : Bool) (row : Json) :
    (b.skip tolerant row).1.articles = b.articles := by
  unfold skip
  split
  · rfl
  · split <;> rfl

theorem orderly_addRow (h : Orderly b.articles) (tolerant : Bool) (row : Json) :
    Orderly (b.addRow tolerant row).1.articles := by
  unfold addRow
  split
  · rename_i x hx
    split
    · rw [articles_skip]
      exact h
    · rename_i hnew
      refine h.cons (RowResult.isNormal_of_article hx) fun y hy hid => hnew ?_
      exact List.any_eq_true.mpr ⟨y, hy, decide_eq_true hid⟩
  · rw [articles_skip]
    exact h
  · exact h

theorem orderly_of_runSource {tolerant : Bool} {error : Option SourceError}
    {items : List SourceItem} {as : List Article} (h : Orderly b.articles)
    (has : (runSource tolerant error b items).result = .ok as) : Orderly as := by
  induction items generalizing b with
  | nil =>
    unfold runSource at has
    split at has
    · obtain rfl := Except.ok.inj has
      exact h.perm (List.reverse_perm _).symm
    · simp [fail] at has
  | cons item items ih =>
    cases item with
    | note r =>
      rw [runSource] at has
      exact ih (b := b.note r) h has
    | row fields =>
      have hrow := orderly_addRow h tolerant (.obj fields)
      unfold runSource at has
      split at has
      · rename_i b' hb'
        rw [hb'] at hrow
        exact ih hrow has
      · simp [fail] at has

end Batch

/-- `b` has one article more than `a`, at the end, and no other has its identifier. -/
def Archive.Appends (a : Archive) (x : Article) (b : Archive) : Prop :=
  (∀ y ∈ a.articles, y.id ≠ x.id) ∧ b = { a with articles := a.articles ++ [x] }

theorem Archive.add_eq_ok_iff {a b : Archive} {x : Article} : a.add x = .ok b ↔ a.Appends x b := by
  unfold add
  split
  · rename_i h
    simp only [List.any_eq_true, decide_eq_true_eq] at h
    obtain ⟨y, hy, hid⟩ := h
    exact iff_of_false nofun fun h => h.1 y hy hid
  · rename_i h
    simp only [List.any_eq_true, decide_eq_true_eq, not_exists, not_and] at h
    rw [Except.ok.injEq]
    exact ⟨fun hb => ⟨h, hb.symm⟩, fun hb => hb.2.symm⟩

theorem Archive.add_eq_error_iff {a : Archive} {x : Article} {e : Refusal} :
    a.add x = .error e ↔
      ∃ y ∈ a.articles, y.id = x.id ∧ e = .document x.id (duplicateMessage x.id) := by
  unfold add
  split
  · rename_i h
    simp only [List.any_eq_true, decide_eq_true_eq] at h
    obtain ⟨y, hy, hid⟩ := h
    rw [Except.error.injEq]
    exact ⟨fun he => ⟨y, hy, hid, he.symm⟩, fun ⟨_, _, _, he⟩ => he.symm⟩
  · rename_i h
    simp only [List.any_eq_true, decide_eq_true_eq, not_exists, not_and] at h
    exact iff_of_false nofun fun ⟨y, hy, hid, _⟩ => h y hy hid

namespace Http

/-- The request asks for a document to be added. -/
def Request.IsSubmission (r : Request) : Prop :=
  Endpoint.ofPath? r.path = some .documents ∧ r.method.map Char.toUpper = Endpoint.documents.method

/-- `b` is `a` with the article of a submission. -/
def Takes (s : Submission) (a b : Archive) : Prop :=
  ∃ x, Article.ofDraft s.draft = .ok x ∧ a.Appends x b

theorem addDocument_cases (a : Archive) (s : Submission) :
    (addDocument a s).1.status ≠ 200 ∧ (addDocument a s).2 = a ∨
      (addDocument a s).1.status = 200 ∧ Takes s a (addDocument a s).2 := by
  unfold addDocument
  split
  · exact .inl ⟨nofun, rfl⟩
  · exact .inl ⟨nofun, rfl⟩
  · rename_i x hx
    cases hadd : a.add x with
    | error e => exact .inl ⟨nofun, rfl⟩
    | ok b => exact .inr ⟨rfl, x, hx, Archive.add_eq_ok_iff.mp hadd⟩

theorem status_unfit_ne (es : List ShapeError) : (Response.unfit es).status ≠ 200 := by
  unfold Response.unfit
  split <;> exact nofun

theorem submit_cases (a : Archive) (r : Request) :
    (submit a r).1.status ≠ 200 ∧ (submit a r).2 = a ∨
      (submit a r).1.status = 200 ∧ ∃ s, r.submission = .ok s ∧ Takes s a (submit a r).2 := by
  unfold submit
  split
  · exact .inl ⟨status_unfit_ne _, rfl⟩
  · rename_i s hs
    exact (addDocument_cases a s).imp_right fun h => ⟨h.1, s, hs, h.2⟩

/-- A request changes the archive only as a submission that is answered with success. -/
theorem respond_cases (a : Archive) (now : DateTime) (r : Request) :
    (respond a now r).2 = a ∧ (r.IsSubmission → (respond a now r).1.status ≠ 200) ∨
      r.IsSubmission ∧ (respond a now r).1.status = 200 ∧
        ∃ s, r.submission = .ok s ∧ Takes s a (respond a now r).2 := by
  by_cases hr : r.IsSubmission
  · rw [respond_of_ofPath hr.1 hr.2]
    exact (submit_cases a r).imp (fun h => ⟨h.2, fun _ => h.1⟩) fun h => ⟨hr, h⟩
  · refine .inl ⟨?_, fun h => absurd h hr⟩
    unfold respond handle
    dsimp only
    split
    · rfl
    · rename_i e he
      split
      · rfl
      · rename_i hmethod
        cases e with
        | documents => exact absurd ⟨he, not_not.mp hmethod⟩ hr
        | _ => rfl

end Http

namespace Archive

/-- What can be done to an archive: its file is loaded, if there is one, an article is handed in, or
a request is made. -/
inductive Operation where
  | load (file : Option (List Nat))
  | add (x : Article) (h : x.IsNormal)
  | request (now : DateTime) (r : Http.Request)

/-- The archive that a step leads to; if the step fails, the old one stays. -/
def commit {ε : Type} (a : Archive) (step : Except ε Archive) : Bool × Archive :=
  match step with
  | .ok b => (true, b)
  | .error _ => (false, a)

/-- Whether an operation succeeds, and the archive after it. -/
def perform (a : Archive) : Operation → Bool × Archive
  | .load none => (true, a.clear)
  | .load (some bytes) => a.commit (a.load (.ofBytes bytes))
  | .add x _ => a.commit (a.add x)
  | .request now r =>
    let (response, b) := Http.respond a now r
    (response.status = 200, b)

/-- The archive after operations one after the other. -/
def after (a : Archive) (ops : List Operation) : Archive :=
  ops.foldl (fun a op => (a.perform op).2) a

variable {a : Archive}

theorem orderly_of_load {s : Source} {b : Archive} (h : a.load s = .ok b) : Orderly b.articles := by
  obtain ⟨as, has, rfl⟩ := map_eq_ok_iff.mp h
  exact Batch.orderly_of_runSource .nil has

theorem Appends.orderly {x : Article} {b : Archive} (h : a.Appends x b) (ha : Orderly a.articles)
    (hx : x.IsNormal) : Orderly b.articles := by
  obtain ⟨hnew, rfl⟩ := h
  exact ha.snoc hx hnew

theorem commit_cases {ε : Type} (a : Archive) (step : Except ε Archive) :
    (∃ b, step = .ok b ∧ a.commit step = (true, b)) ∨
      (∃ e, step = .error e) ∧ a.commit step = (false, a) := by
  cases step with
  | ok b => exact .inl ⟨b, rfl, rfl⟩
  | error e => exact .inr ⟨⟨e, rfl⟩, rfl⟩

theorem perform_add {x : Article} (hx : x.IsNormal) :
    (∃ b, a.perform (.add x hx) = (true, b) ∧ a.Appends x b) ∨
      a.perform (.add x hx) = (false, a) ∧ ∃ y ∈ a.articles, y.id = x.id := by
  rcases commit_cases a (a.add x) with ⟨b, hadd, hb⟩ | ⟨⟨e, hadd⟩, hsame⟩
  · exact .inl ⟨b, hb, add_eq_ok_iff.mp hadd⟩
  · refine .inr ⟨hsame, ?_⟩
    by_contra hnew
    have hok : a.add x = .ok { a with articles := a.articles ++ [x] } :=
      add_eq_ok_iff.mpr ⟨fun y hy hid => hnew ⟨y, hy, hid⟩, rfl⟩
    simp [hadd] at hok

theorem perform_of_fails {op : Operation} (h : (a.perform op).1 = false) :
    (a.perform op).2 = a := by
  have hcommit {ε : Type} {step : Except ε Archive} (h : (a.commit step).1 = false) :
      (a.commit step).2 = a := by
    rcases commit_cases a step with ⟨b, -, hb⟩ | ⟨-, hsame⟩
    · simp [hb] at h
    · rw [hsame]
  cases op with
  | load file =>
    cases file with
    | none => simp [perform] at h
    | some bytes => exact hcommit h
  | add x hx => exact hcommit h
  | request now r =>
    rcases Http.respond_cases a now r with ⟨hsame, -⟩ | ⟨-, hok, -⟩
    · exact hsame
    · exact absurd hok (of_decide_eq_false h)

theorem orderly_perform (h : Orderly a.articles) (op : Operation) :
    Orderly (a.perform op).2.articles := by
  cases op with
  | load file =>
    cases file with
    | none => exact .nil
    | some bytes =>
      rcases commit_cases a (a.load (.ofBytes bytes)) with ⟨b, hload, hb⟩ | ⟨-, hsame⟩
      · rw [perform, hb]
        exact orderly_of_load hload
      · rwa [perform, hsame]
  | add x hx =>
    rcases perform_add hx with ⟨b, hb, happends⟩ | ⟨hsame, -⟩
    · rw [hb]
      exact happends.orderly h hx
    · rwa [hsame]
  | request now r =>
    show Orderly (Http.respond a now r).2.articles
    rcases Http.respond_cases a now r with ⟨hsame, -⟩ | ⟨-, -, s, -, x, hx, happends⟩
    · rwa [hsame]
    · exact happends.orderly h (Article.isNormal_of_ofDraft hx)

theorem orderly_after (h : Orderly a.articles) (ops : List Operation) :
    Orderly (a.after ops).articles := by
  induction ops generalizing a with
  | nil => exact h
  | cons op ops ih => exact ih (orderly_perform h op)

/-- Whatever is done to an archive of articles with different identifiers, its articles keep
different identifiers, each a positive one, tidy titles and natural numbers of views. An operation
that fails leaves the archive as it was; an article that is handed in, unless its identifier is
taken, and the article of a submission that is answered with success are appended. -/
theorem articles_after_operations (hids : (a.articles.map (·.id)).Nodup)
    (hnormal : ∀ x ∈ a.articles, x.IsNormal) (ops : List Operation) :
    (((a.after ops).articles.map (·.id)).Nodup ∧
      ∀ x ∈ (a.after ops).articles, 1 ≤ x.id ∧ x.title.IsTidy ∧ 0 ≤ x.viewCount) ∧
    ∀ b : Archive,
      (∀ op, (b.perform op).1 = false → (b.perform op).2 = b) ∧
      (∀ x hx, ((b.perform (.add x hx)).1 = true ↔ ∀ y ∈ b.articles, y.id ≠ x.id) ∧
        ((b.perform (.add x hx)).1 = true → b.Appends x (b.perform (.add x hx)).2)) ∧
      ∀ now r, ((b.perform (.request now r)).1 = true → r.IsSubmission →
          ∃ s, r.submission = .ok s ∧ Http.Takes s b (b.perform (.request now r)).2) ∧
        (¬ r.IsSubmission → (b.perform (.request now r)).2 = b) := by
  have horderly := orderly_after ⟨hids, hnormal⟩ ops
  refine ⟨⟨horderly.ids, fun x hx => ?_⟩, fun b => ⟨fun op => perform_of_fails, ?_, ?_⟩⟩
  · have hx := horderly.normal x hx
    exact ⟨hx.id_pos, hx.isTidy_title, Nat.zero_le x.viewCount⟩
  · intro x hx
    rcases perform_add (a := b) hx with ⟨c, hc, happends⟩ | ⟨hsame, y, hy, hid⟩
    · rw [hc]
      exact ⟨iff_of_true rfl happends.1, fun _ => happends⟩
    · rw [hsame]
      exact ⟨iff_of_false nofun fun h => h y hy hid, nofun⟩
  · intro now r
    -- only a submission that is answered with 200 changes the archive
    rcases Http.respond_cases b now r with ⟨hsame, hstatus⟩ | ⟨hr, -, htakes⟩
    · exact ⟨fun hok hr => absurd (of_decide_eq_true hok) (hstatus hr), fun _ => hsame⟩
    · exact ⟨fun _ _ => htakes, fun h => absurd hr h⟩

theorem articles_after_additions :
    let fields (id : Int) : List (Text × Json) :=
      [(Draft.idKey, .int id), (Draft.titleKey, .str " a  b ".toList),
        (Draft.createdAtKey, .str "2024-01-01".toList)]
    ∃ x y hx hy, Article.ofFields (fields 1) = .ok x ∧ Article.ofFields (fields 2) = .ok y ∧
      let a : Archive := { articles := [x] }
      let b := a.after [.add x hx, .add y hy]
      b.articles = [x, y] ∧ (b.articles.map (·.id)).Nodup ∧
        ∀ z ∈ b.articles, 1 ≤ z.id ∧ z.title.IsTidy ∧ 0 ≤ z.viewCount := by
  intro fields
  let day : Date := ⟨2024, 1, 1, by decide, by decide, by decide⟩
  let made (id : Nat) : Article :=
    { id, title := "a b".toList, content := [], summary := [], category := none,
      createdAt := .midnight day, viewCount := 0, localizations := [] }
  have hx : Article.ofFields (fields 1) = .ok (made 1) := rfl
  have hy : Article.ofFields (fields 2) = .ok (made 2) := rfl
  have hnx := Article.isNormal_of_ofDraft hx
  have hny := Article.isNormal_of_ofDraft hy
  refine ⟨made 1, made 2, hnx, hny, hx, hy, rfl, ?_⟩
  have hids : (List.map (·.id) [made 1]).Nodup := List.nodup_singleton 1
  exact (articles_after_operations (a := ⟨{}, [made 1]⟩) hids (by simpa using hnx) _).1

end Archive

end ArticleArchive
