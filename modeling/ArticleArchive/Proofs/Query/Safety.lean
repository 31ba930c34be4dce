import ArticleArchive.Proofs.Query.Reading
import ArticleArchive.Proofs.Query.Scan
import ArticleArchive.Search

namespace ArticleArchive

namespace Query

theorem accepts_eq_error_iff {q : Query} (h : q.Sound) {a : Article} {e : MatchError} :
    q.accepts a = .error e ↔ e = .unreadableNumber ∧ q.Stuck a := by
  have hq := settles_accepts h a
  by_cases hs : q.Stuck a
  · rw [hq.1 hs]
    simp [hs, eq_comm]
  · obtain ⟨b, hb, -⟩ := hq.2 hs
    simp [hb, hs]

theorem execute_eq_unreadable {q : Query} (h : q.Sound) {corpus : List Article} {e : MatchError}
    (he : q.execute corpus = .error e) : e = .unreadableNumber ∧ ∃ a ∈ corpus, q.Stuck a := by
  obtain ⟨a, ha, hea⟩ := execute_eq_error he
  obtain ⟨hu, hs⟩ := (accepts_eq_error_iff h).mp hea
  exact ⟨hu, a, ha, hs⟩

theorem execute_ok_iff {q : Query} (h : q.Sound) {corpus : List Article} :
    (∃ found, q.execute corpus = .ok found) ↔ ∀ a ∈ corpus, ¬ q.Stuck a := by
  constructor
  · rintro ⟨found, hfound⟩ a ha hs
    obtain ⟨b, hb⟩ := accepts_ok_of_execute hfound a ha
    have he := (accepts_eq_error_iff h).mpr ⟨rfl, hs⟩
    simp [hb] at he
  · intro hs
    cases he : q.execute corpus with
    | ok found => exact ⟨found, rfl⟩
    | error e =>
      obtain ⟨-, a, ha, hstuck⟩ := execute_eq_unreadable h he
      exact absurd hstuck (hs a ha)

end Query

theorem SortKey.exists_of_problems {s : SortSpec} (h : s.problems = []) :
    ∃ k, SortKey.ofText? s.key = some k := by
  unfold SortSpec.problems Problem.ofSortKey at h
  split at h
  · exact ⟨_, ‹_›⟩
  · simp at h

theorem exists_arrange?_some {s : SortSpec} {k : SortKey} (hk : SortKey.ofText? s.key = some k)
    (terms : List Text) (as : List Article) : ∃ bs, arrange? (some s) terms as = some bs :=
  ⟨_, by rw [arrange?, arrangeBy?, hk]; rfl⟩

theorem exists_arrange? {sort : Option SortSpec} (h : ∀ s ∈ sort, s.problems = [])
    (terms : List Text) (as : List Article) : ∃ bs, arrange? sort terms as = some bs := by
  cases sort with
  | none => exact ⟨_, rfl⟩
  | some s =>
    obtain ⟨k, hk⟩ := SortKey.exists_of_problems (h s rfl)
    exact exists_arrange?_some hk terms as

namespace SearchOutcome

theorem ofQuery_ok_iff {q : Query} (h : q.Sound) {corpus : List Article} :
    (∃ o, ofQuery q corpus = .ok o) ↔ ∃ found, q.execute corpus = .ok found := by
  constructor
  · rintro ⟨o, ho⟩
    obtain ⟨found, hfound, -⟩ := bind_eq_ok_iff.mp ho
    exact ⟨found, mapError_eq_ok_iff.mp hfound⟩
  · rintro ⟨found, hfound⟩
    obtain ⟨bs, hbs⟩ := exists_arrange? h.sort q.terms found
    refine ⟨⟨some q, bs, q.effectiveSort, q.terms⟩, ?_⟩
    refine bind_eq_ok_iff.mpr ⟨found, mapError_eq_ok_iff.mpr hfound, ?_⟩
    simp only [hbs]
    rfl

theorem ofQuery_eq_error {q : Query} (h : q.Sound) {corpus : List Article} {e : SearchError}
    (he : ofQuery q corpus = .error e) : ∃ e', q.execute corpus = .error e' ∧ e = .matching e' := by
  rcases bind_eq_error_iff.mp he with he | ⟨found, -, he⟩
  · obtain ⟨e', he', rfl⟩ := mapError_eq_error_iff.mp he
    exact ⟨e', he', rfl⟩
  · obtain ⟨bs, hbs⟩ := exists_arrange? h.sort q.terms found
    simp [hbs, pure, Except.pure] at he

end SearchOutcome

namespace Lexeme

theorem scanFrom_of_blank {t : Text} (h : ∀ c ∈ t, Text.isBlank c = true) (n : Nat) :
    scanFrom n t = .ok [] := by
  rw [← List.append_nil t, scanFrom_blanks h, scanFrom_nil]

theorem eq_nil_of_ofText_blank {raw : Text} {ls : List Lexeme}
    (hraw : Query.isBlankText raw = true) (h : ofText raw = .ok ls) : ls = [] := by
  unfold ofText at h
  split at h
  · simp at h
  · rw [scanFrom_of_blank (List.all_eq_true.mp hraw)] at h
    exact (Except.ok.inj h).symm

end Lexeme

namespace Query

theorem parse_sound {raw : Text} {q : Query} (hq : parse raw = .ok q) (hp : q.problems = []) :
    q.Sound := by
  obtain ⟨ls, hls, h⟩ := parse_eq_ok_iff.mp hq
  have hmarks := Lexeme.marksKnown_of_ofText hls
  exact (ofTokens_madeOf h hmarks).sound hmarks hp

theorem not_stuck_of_blank {raw : Text} {q : Query} (hraw : isBlankText raw = true)
    (hq : parse raw = .ok q) (a : Article) : ¬ q.Stuck a := by
  obtain ⟨ls, hls, h⟩ := parse_eq_ok_iff.mp hq
  obtain rfl := Lexeme.eq_nil_of_ofText_blank hraw hls
  exact (ofTokens_madeOf h (by simp [Token.MarksKnown])).not_stuck (by simp [Token.NumbersShort]) a

theorem ofText_of_compile {raw : Text} {q : Query} (hraw : isBlankText raw = false)
    (hq : compile raw = .ok q) (corpus : List Article) :
    SearchOutcome.ofText raw corpus = SearchOutcome.ofQuery q corpus := by
  simp [SearchOutcome.ofText, hraw, hq]

end Query

namespace Lexeme

theorem isBareChar_of_isDigit {c : Char} (h : c.isDigit = true) : isBareChar c = true := by
  have hq : c ≠ '"' := by
    rintro rfl
    simp at h
  simp [isBareChar, Text.isBlank_of_isDigit h, hq]

theorem scanField_views {c : Char} {t : Text} (h : ∀ d ∈ c :: t, d.isDigit = true) :
    scanField "views".toList (c :: t) = .ok (.range "views".toList .eq (c :: t), []) := by
  have hplain : Text.Plain (c :: t) :=
    ⟨List.cons_ne_nil _ _, fun d hd => isBareChar_of_isDigit (h d hd)⟩
  have hmark : Comparison.eq.EndsBefore (c :: t) := by
    constructor <;> rintro s ⟨⟩ <;> simpa using h _ List.mem_cons_self
  have hnumber : numberToken "views".toList (c :: t) = .ok (.range "views".toList .eq (c :: t)) :=
    (numberToken_eq_ok_iff hplain.1).mpr ⟨.eq, c :: t, rfl, hplain.1, rfl, hmark⟩
  exact scanField_eq_ok_iff.mpr ⟨false, c :: t, by simp [Token.enclosed], ⟨hplain, by simp⟩,
    fieldToken_eq_ok_iff.mpr (.inr (.inr (.inl ⟨by decide, hnumber⟩)))⟩

theorem ofText_of_scanToken {c : Char} {t : Text} {k : Token} (hq : '"' ∉ c :: t)
    (hc : Text.isBlank c = false) (hk : scanToken (c :: t) = .ok (k, [])) :
    ofText (c :: t) = .ok [⟨k, 0, (c :: t).length⟩] :=
  ofText_ok (Text.balanced_of_not_mem hq) (scanFrom_token_ok hc hk (by simp) (scanFrom_nil _))

theorem ofText_views {c : Char} {t : Text} (h : ∀ d ∈ c :: t, d.isDigit = true) :
    ofText ("views:".toList ++ c :: t) =
      .ok [⟨.range "views".toList .eq (c :: t), 0, ("views:".toList ++ c :: t).length⟩] := by
  have hq : '"' ∉ "views:".toList ++ c :: t := by
    intro hm
    rcases List.mem_append.mp hm with hm | hm
    · simp at hm
    · simpa using h _ hm
  have hk : scanToken ("views:".toList ++ c :: t) = .ok (.range "views".toList .eq (c :: t), []) :=
    scanField_views h
  have hraw : "views:".toList ++ c :: t = 'v' :: ("iews:".toList ++ c :: t) := rfl
  rw [hraw] at hq hk ⊢
  exact ofText_of_scanToken hq (by decide) hk

end Lexeme

namespace Query

theorem parse_views {t : Text} (h : Problem.isNumber t = true) :
    parse ("views:".toList ++ t) = .ok { views := [⟨.views, .eq, t⟩] } := by
  obtain ⟨hne, hall⟩ : t ≠ [] ∧ t.all Char.isDigit = true := by simpa [Problem.isNumber] using h
  obtain ⟨c, t, rfl⟩ := List.exists_cons_of_ne_nil hne
  have hls := Lexeme.ofText_views (List.all_eq_true.mp hall)
  exact parse_eq_ok_iff.mpr ⟨_, hls, rfl⟩

theorem problems_views {t : Text} (h : Problem.isNumber t = true) :
    Query.problems { views := [⟨.views, .eq, t⟩] } = [] := by
  simp [problems, clauses, Clause.problems, Problem.ofNumber, h, DateFilter.problems]

theorem compile_views {t : Text} (h : Problem.isNumber t = true) :
    compile ("views:".toList ++ t) = .ok { views := [⟨.views, .eq, t⟩] } :=
  compile_eq_ok_iff.mpr ⟨parse_views h, problems_views h⟩

theorem stuck_views {t : Text} (h : Text.maxDigits < t.length) (a : Article) :
    Query.Stuck { views := [⟨.views, .eq, t⟩] } a := by
  simp [Stuck, DateFilter.Holds, StuckIn, RangeClause.TooLong, h]

/-- A query without problems runs to its end unless an article comes to a number of views that is
too long to be read; there is no other error. The same is true of a search, blank or not. -/
theorem runs_iff_not_stuck {raw : Text} {q : Query} (hq : parse raw = .ok q)
    (hp : q.problems = []) (corpus : List Article) :
    ((∃ found, q.execute corpus = .ok found) ↔ ∀ a ∈ corpus, ¬ q.Stuck a) ∧
    ((∃ o, SearchOutcome.ofText raw corpus = .ok o) ↔ ∀ a ∈ corpus, ¬ q.Stuck a) ∧
    (∀ e, q.execute corpus = .error e → e = .unreadableNumber) ∧
    (∀ e, SearchOutcome.ofText raw corpus = .error e → e = .matching .unreadableNumber) ∧
    ∀ a, q.Stuck a → ∃ r, .range r ∈ q.clauses ∧ r.TooLong := by
  have hs := parse_sound hq hp
  have hc := compile_eq_ok_iff.mpr ⟨hq, hp⟩
  refine ⟨execute_ok_iff hs, ?_, fun e he => (execute_eq_unreadable hs he).1, ?_,
    fun a => Stuck.exists_tooLong⟩
  · by_cases hraw : isBlankText raw = true
    -- a blank text is not compiled, but it would be a query that stops nowhere
    · refine iff_of_true ⟨{}, ?_⟩ fun a _ => not_stuck_of_blank hraw hq a
      simp [SearchOutcome.ofText, hraw]
    · rw [ofText_of_compile (by simpa using hraw) hc, SearchOutcome.ofQuery_ok_iff hs,
        execute_ok_iff hs]
  · intro e he
    by_cases hraw : isBlankText raw = true
    · simp [SearchOutcome.ofText, hraw] at he
    · rw [ofText_of_compile (by simpa using hraw) hc] at he
      obtain ⟨e', he', rfl⟩ := SearchOutcome.ofQuery_eq_error hs he
      rw [(execute_eq_unreadable hs he').1]

/-- A number of 4301 digits is no problem of a query, but no article can be tested with it. -/
theorem not_runs_with_long_number :
    parse ("views:".toList ++ List.replicate 4301 '1') =
        .ok { views := [⟨.views, .eq, List.replicate 4301 '1'⟩] } ∧
      Query.problems { views := [⟨.views, .eq, List.replicate 4301 '1'⟩] } = [] ∧
      ∀ a, (¬ ∃ found,
          Query.execute { views := [⟨.views, .eq, List.replicate 4301 '1'⟩] } [a] = .ok found) ∧
        ¬ ∃ o, SearchOutcome.ofText ("views:".toList ++ List.replicate 4301 '1') [a] = .ok o := by
  have hnumber : Problem.isNumber (List.replicate 4301 '1') = true := by
    rw [Problem.isNumber, List.isEmpty_replicate, List.all_replicate]
    rfl
  have hlong : Text.maxDigits < (List.replicate 4301 '1').length := by
    rw [List.length_replicate]
    decide
  have hq := parse_views hnumber
  have hp := problems_views hnumber
  refine ⟨hq, hp, fun a => ?_⟩
  have hstuck := stuck_views hlong a
  obtain ⟨hrun, hsearch, -⟩ := runs_iff_not_stuck hq hp [a]
  exact ⟨fun h => hrun.mp h a List.mem_cons_self hstuck,
    fun h => hsearch.mp h a List.mem_cons_self hstuck⟩

end Query

end ArticleArchive
