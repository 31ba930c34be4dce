import ArticleArchive.Proofs.Service.Partition

namespace ArticleArchive

def LogLevel.names : List Text :=
  ["DEBUG".toList, "INFO".toList, "WARNING".toList, "ERROR".toList, "CRITICAL".toList]

theorem LogLevel.text_mem_names (l : LogLevel) : l.text ∈ names := by
  cases l <;> decide

theorem LogLevel.map_text_ofText? (t : Text) :
    (ofText? t).map text = (some t).filter (· ∈ names) := by
  have hnames : all.map text = names := rfl
  cases h : ofText? t with
  | some l =>
    obtain rfl : l.text = t := by simpa using List.find?_some h
    simp [Option.filter_some, text_mem_names]
  | none =>
    have hno : t ∉ names := by
      rw [← hnames]
      simpa [ofText?] using h
    simp [Option.filter_some, hno]

namespace Settings

variable {s : Settings}

def integerIn? (env : List (Text × Text)) (name : Text) : Option Int :=
  (env.lookup name).bind Text.integer?

def levelIn? (env : List (Text × Text)) : Option Text :=
  (env.lookup logLevelVariable).map fun t => (Text.strip t).map capital

/-- A page has room for an article, also by default, and the level is one of the five. -/
structure InRange (s : Settings) : Prop where
  default_pos : 1 ≤ s.defaultLimit
  default_le : s.defaultLimit ≤ s.maxLimit
  level : s.logLevel.text ∈ LogLevel.names

/-- Of what the environment sets, the settings keep what is in range. -/
structure Keeps (env : List (Text × Text)) (s : Settings) : Prop where
  maxLimit : s.maxLimit = ((integerIn? env maxLimitVariable).filter (1 ≤ ·)).getD 100
  defaultLimit : s.defaultLimit =
    ((integerIn? env defaultLimitVariable).filter fun n => 1 ≤ n ∧ n ≤ s.maxLimit).getD
      (min 10 s.maxLimit)
  logLevel : s.logLevel.text = ((levelIn? env).filter (· ∈ LogLevel.names)).getD "INFO".toList

theorem validMaxLimit_getD (given : Option Int) :
    validMaxLimit (given.getD 100) = (given.filter (1 ≤ ·)).getD 100 := by
  cases given with
  | none => rfl
  | some n =>
    have hn : n < 1 ↔ ¬ 1 ≤ n := by omega
    by_cases h : 1 ≤ n <;> simp [validMaxLimit, Option.filter_some, hn, h]

theorem validDefaultLimit_getD (maxLimit : Int) (given : Option Int) :
    validDefaultLimit maxLimit (given.getD 10) =
      (given.filter fun n => 1 ≤ n ∧ n ≤ maxLimit).getD (min 10 maxLimit) := by
  unfold validDefaultLimit
  cases given with
  | none =>
    simp only [Option.getD_none, Option.filter_none]
    split <;> omega
  | some n =>
    rw [Option.getD_some, Option.filter_some]
    by_cases h : 1 ≤ n ∧ n ≤ maxLimit <;> simp [h]

theorem levelOr_eq (given : Option Text) :
    (levelOr .info given).text =
      ((given.map fun t => (Text.strip t).map capital).filter (· ∈ LogLevel.names)).getD
        "INFO".toList := by
  cases given with
  | none => rfl
  | some t =>
    rw [Option.map_some, ← LogLevel.map_text_ofText?, levelOr, Option.bind_some]
    cases LogLevel.ofText? ((Text.strip t).map capital) <;> rfl

theorem keeps_ofEnvironment (env : List (Text × Text)) : Keeps env (ofEnvironment env) where
  maxLimit := validMaxLimit_getD _
  defaultLimit := validDefaultLimit_getD _ _
  logLevel := levelOr_eq _

theorem inRange_ofEnvironment (env : List (Text × Text)) : (ofEnvironment env).InRange where
  default_pos := (limits_ofEnvironment env).1
  default_le := (limits_ofEnvironment env).2
  level := LogLevel.text_mem_names _

theorem InRange.appliedLimit_le (h : s.InRange) (requested : Option Int) :
    s.appliedLimit requested ≤ s.maxLimit := by
  have hle := h.default_le
  unfold appliedLimit
  split
  · exact hle
  · split <;> omega

theorem appliedLimit_of_range {n : Int} (hn : 1 ≤ n ∧ n ≤ s.maxLimit) :
    s.appliedLimit (some n) = n := by
  unfold appliedLimit
  dsimp only
  rw [if_neg (by omega)]

end Settings

namespace Pagination

theorem length_window_le {α : Type} {page limit : Int} (hpage : 1 ≤ page) (hlimit : 0 ≤ limit)
    (xs : List α) : ((window page limit xs).length : Int) ≤ limit := by
  obtain ⟨l, rfl⟩ := Int.eq_ofNat_of_zero_le hlimit
  obtain ⟨k, rfl⟩ : ∃ k : Nat, page = k + 1 := ⟨(page - 1).toNat, by omega⟩
  rw [window_eq, List.length_take]
  omega

end Pagination

namespace Archive

variable {a : Archive} {now : DateTime} {r : SearchRequest} {o : SearchOutcome} {p : SearchPage}

theorem length_le_of_outcome (h : a.outcome now r = .ok o) :
    o.articles.length ≤ a.articles.length := by
  rcases SearchOutcome.ofText_eq_ok (outcome_eq_ok_iff.mp h) with
    ⟨-, rfl⟩ | ⟨q, found, -, hfound, harrange⟩
  · exact Nat.zero_le _
  · calc o.articles.length
        = found.length := (arrange?_perm harrange).length_eq
      _ ≤ (a.visible now r.language (r.includeFuture.getD a.settings.includeFuture)).length :=
          (Query.execute_sublist hfound).length_le
      _ ≤ a.articles.length := by
          rw [visible, List.length_map]
          exact List.length_filter_le _ _

theorem pageCount?_of_search (h : a.search now r = .error .emptyPages) :
    ∃ o, a.outcome now r = .ok o ∧
      Pagination.pageCount? o.articles.length (a.settings.appliedLimit r.limit) = none := by
  rcases bind_eq_error_iff.mp h with h | ⟨o, ho, h⟩
  · unfold outcome at h
    dsimp only at h
    split at h <;> simp at h
  · refine ⟨o, ho, ?_⟩
    rcases bind_eq_error_iff.mp h with h | ⟨hits, -, h⟩
    · obtain ⟨es, -, he⟩ := mapError_eq_error_iff.mp h
      cases he
    · split at h
      · assumption
      · simp [pure, Except.pure] at h

theorem length_results_le (hpos : 1 ≤ a.settings.appliedLimit r.limit)
    (h : a.search now r = .ok p) :
    (p.results.length : Int) ≤ a.settings.appliedLimit r.limit := by
  obtain ⟨o, -, hhits⟩ := exists_of_search_eq_ok h
  rw [← (mapM_eq_ok_iff.mp hhits).length_eq]
  exact Pagination.length_window_le (by omega) (by omega) _

theorem search_ne_emptyPages (hpos : 1 ≤ a.settings.appliedLimit r.limit)
    (htotal : a.articles.length < 2 ^ (1023 : Nat)) : a.search now r ≠ .error .emptyPages := by
  intro h
  obtain ⟨o, ho, hcount⟩ := pageCount?_of_search h
  obtain ⟨c, hc⟩ := Binary64.exists_ceil?_ofRatio ((length_le_of_outcome ho).trans_lt htotal) false
    (a.settings.appliedLimit r.limit).natAbs
  rw [Pagination.pageCount?_eq hpos, hc] at hcount
  cases hcount

/-- Whatever the environment sets, the settings are in range, and keep what is in range of it. Under
settings in range a search has, for whatever limit is requested, one that is at least 1 and at most
the greatest, and the requested one if that is so itself. The number of articles is divided by it,
so that no search fails for want of a number of pages, and no page holds more articles. -/
theorem limit_of_search_in_range (env : List (Text × Text)) :
    (Settings.ofEnvironment env).InRange ∧ Settings.Keeps env (Settings.ofEnvironment env) ∧
    ∀ a : Archive, a.settings.InRange → ∀ requested : Option Int,
      let limit := a.settings.appliedLimit requested
      (1 ≤ limit ∧ limit ≤ a.settings.maxLimit) ∧
      (∀ n, requested = some n → 1 ≤ n → n ≤ a.settings.maxLimit → limit = n) ∧
      (∀ total, Pagination.pageCount? total limit =
        (Binary64.ofRatio false total limit.natAbs).ceil?) ∧
      ∀ (now : DateTime) (r : SearchRequest), r.limit = requested →
        (∀ p, a.search now r = .ok p → p.pagination.limit = limit ∧ p.results.length ≤ limit) ∧
        (a.articles.length < 2 ^ (1023 : Nat) → a.search now r ≠ .error .emptyPages) := by
  refine ⟨Settings.inRange_ofEnvironment env, Settings.keeps_ofEnvironment env,
    fun a h requested => ?_⟩
  have hpos := one_le_appliedLimit h.default_pos requested
  refine ⟨⟨hpos, h.appliedLimit_le requested⟩, fun n hn hlow hhigh => ?_,
    Pagination.pageCount?_eq hpos, fun now r hr => ?_⟩
  · rw [hn]
    exact Settings.appliedLimit_of_range ⟨hlow, hhigh⟩
  · subst hr
    refine ⟨fun p hp => ?_, search_ne_emptyPages hpos⟩
    obtain ⟨o, -, -, hlimit⟩ := pagination_of_search hp
    exact ⟨hlimit, length_results_le hpos hp⟩

/-- A default above the greatest limit gives way to that, and a smaller limit can be requested. -/
theorem limit_of_search_below_five :
    let env : List (Text × Text) :=
      [(Settings.defaultLimitVariable, "80".toList), (Settings.maxLimitVariable, "5".toList)]
    let a : Archive := { settings := Settings.ofEnvironment env }
    a.settings.InRange ∧ a.settings.maxLimit = 5 ∧ a.settings.defaultLimit = 5 ∧
      a.settings.appliedLimit (some 3) = 3 ∧
      ∀ now, a.search now { query := [], limit := some 3 } ≠ .error .emptyPages := by
  intro env a
  obtain ⟨hrange, hkeeps, hsearch⟩ := limit_of_search_in_range env
  have hmax : a.settings.maxLimit = 5 := hkeeps.maxLimit
  obtain ⟨-, hkept, -, hanswered⟩ := hsearch a hrange (some 3)
  have hthree : a.settings.appliedLimit (some 3) = 3 :=
    hkept 3 rfl (by decide) (by rw [hmax]; decide)
  refine ⟨hrange, hmax, hkeeps.defaultLimit, hthree, fun now => (hanswered now _ rfl).2 ?_⟩
  exact Nat.two_pow_pos 1023

end Archive

end ArticleArchive
