import ArticleArchive.Proofs.Query.Neighbours
import ArticleArchive.Proofs.Query.Rendering
import ArticleArchive.Proofs.Query.Room

namespace ArticleArchive

open Lexeme (tokens isBareChar)

namespace Chain

theorem pushExclusion_eq_error_iff {s : Chain} {t : Token} {e : Failure} :
    s.pushExclusion t = .error e ↔
      t.isFreeText = false ∧ e = .malformed (.invalidExclusion ('-' :: t.describe)) := by
  cases t <;> simp [pushExclusion, Token.isFreeText, eq_comm]

theorem exists_of_push_eq_error {s : Chain} {t : Token} {v : Text}
    (h : s.push t = .error (.malformed (.invalidExclusion v))) :
    ∃ u, t = .exclude u ∧ u.isFreeText = false ∧ v = '-' :: u.describe := by
  rcases push_eq_error h with ⟨c, he⟩ | ⟨d, he⟩ | ⟨u, rfl, hu, he⟩ | ⟨he, -⟩ | ⟨he, -⟩
  · simp [Failure.malformed] at he
  · simp [Failure.malformed] at he
  · refine ⟨u, rfl, ?_, by simpa [Failure.malformed] using he⟩
    cases u <;> simp_all [Token.excludedTerm?, Token.isFreeText]
  · simp [Failure.malformed] at he
  · simp [Failure.malformed] at he

theorem exists_of_ofTokens_eq_error {ts : List Token} {v : Text}
    (h : ofTokens ts = .error (.malformed (.invalidExclusion v))) :
    ∃ u, .exclude u ∈ ts ∧ u.isFreeText = false ∧ v = '-' :: u.describe := by
  rcases bind_eq_error_iff.mp h with h | ⟨s, -, h⟩
  · obtain ⟨t, ht, s, hs⟩ := exists_of_foldlM_eq_error h
    obtain ⟨u, rfl, hu⟩ := exists_of_push_eq_error hs
    exact ⟨u, ht, hu⟩
  · unfold finish at h
    split at h <;> simp [Failure.malformed] at h

end Chain

theorem Query.exists_of_parse_eq_error {raw v : Text} {ts : List Token} (hts : tokens raw = .ok ts)
    (h : parse raw = .error (.malformed (.invalidExclusion v))) :
    ∃ u, .exclude u ∈ ts ∧ u.isFreeText = false ∧ v = '-' :: u.describe := by
  obtain ⟨ls, hls, rfl⟩ := map_eq_ok_iff.mp hts
  have htokens : ofTokens (ls.map (·.token)) = .error (.malformed (.invalidExclusion v)) := by
    rw [parse, hls] at h
    exact h
  rcases bind_eq_error_iff.mp htokens with h | ⟨s, -, h⟩
  · exact Chain.exists_of_ofTokens_eq_error h
  · -- the clauses of a chain are only refused as given twice
    obtain ⟨e, he, hev⟩ := mapError_eq_error_iff.mp h
    let start : Query := { excluded := s.excluded.reverse, sort := s.sort }
    have hstart : (start.fields.map (·.name)).Nodup := List.nodup_nil
    rcases foldlM_addClause_cases hstart s.clauses.reverse with ⟨-, q, hq⟩ | ⟨-, name, hq⟩
    · cases hq.symm.trans he
    · obtain rfl := Except.error.inj (hq.symm.trans he)
      simp [Failure.malformed] at hev

namespace Token

/-- The description of a number that is compared for equality is the rendering of another one. -/
theorem describe_equality (name value : Text) :
    (range name .eq value).describe = (range name .eq ('=' :: value)).rendered :=
  rfl

theorem describe_eq_rendered {t : Token} (h : t.IsTerm true) (hfree : t.isFreeText = false)
    (heq : ∀ name value, t ≠ .range name .eq value) : t.describe = t.rendered := by
  cases t with
  | word | phrase => simp [isFreeText] at hfree
  | field name value quoted => cases quoted <;> rfl
  | range name op value =>
    have hne : op ≠ .eq := fun he => heq name value (by rw [he])
    rw [describe, rendered,
      Comparison.written_of_isInequality (Comparison.isInequality_of_endsBefore h.2.1 hne)]
  | dates | sort => rfl
  | connective => simp [IsTerm] at h
  | exclude | unknown => exact h.elim

theorem isTerm_marked {excluded : Bool} {name value : Text}
    (h : IsTerm excluded (.range name .eq value)) :
    IsTerm excluded (.range name .eq ('=' :: value)) := by
  obtain ⟨hv, -, hname⟩ := h
  refine ⟨⟨List.cons_ne_nil _ _, by simpa using hv.2⟩, by simp [Comparison.EndsBefore], ?_⟩
  exact .inl (hname.resolve_right fun h => h.2.1 rfl)

theorem scanTerm_describe_equality_ne {name value r : Text}
    (h : IsTerm true (.range name .eq value)) :
    Lexeme.scanTerm true (range name .eq value).describe ≠ .ok (.range name .eq value, r) := by
  intro hs
  rw [describe_equality, rendered, Lexeme.scanTerm_named (isName_of_range h)] at hs
  obtain ⟨quoted, u, hu, hd, hk⟩ := Lexeme.scanField_eq_ok_iff.mp hs
  obtain rfl : u = value := value_of_fieldToken_range hk hd.quotable.1
  cases quoted with
  | true => simp [enclosed, Comparison.written] at hu
  | false =>
    obtain ⟨hplain, hr⟩ := hd
    have hu : '=' :: u = u ++ r := hu
    -- one character is left over, and no blank or quote among all of them
    obtain ⟨c, s, rfl⟩ : ∃ c s, r = c :: s := by
      refine List.exists_cons_of_ne_nil ?_
      rintro rfl
      simpa using congrArg List.length hu
    have hc : c ∈ '=' :: u := by simp [hu]
    have hbare : isBareChar c = true := by
      rcases List.mem_cons.mp hc with rfl | hc
      · decide
      · exact hplain.2 c hc
    exact absurd (hr c rfl) (by simp [hbare])

theorem tokens_describe_equality_ne {name value : Text} (h : IsTerm true (.range name .eq value)) :
    tokens ('-' :: (range name .eq value).describe) ≠ .ok [.exclude (.range name .eq value)] := by
  intro hread
  obtain ⟨u, us, r, hus, hscan⟩ := Lexeme.scanToken_of_tokens (by decide) hread
  obtain ⟨rfl, rfl⟩ := List.cons.inj hus
  have hterm := (scanToken_exclude (isTerm_marked h)).symm.trans hscan
  obtain ⟨⟨k, r'⟩, hk, he⟩ := map_eq_ok_iff.mp hterm
  obtain ⟨rfl, rfl⟩ := by simpa using he
  exact scanTerm_describe_equality_ne h hk

theorem tokens_describe_iff {t : Token} (h : t.IsTerm true) (hfree : t.isFreeText = false) :
    tokens ('-' :: t.describe) = .ok [.exclude t] ↔
      t.StandsBare ∧ ∀ name value, t ≠ .range name .eq value := by
  by_cases heq : ∀ name value, t ≠ .range name .eq value
  · have hrendering : '-' :: t.describe = rendering [.exclude t] := by
      rw [rendering_singleton, rendered, describe_eq_rendered h hfree heq]
    rw [hrendering, tokens_rendering_iff, and_iff_left heq, List.forall_mem_singleton]
    exact ⟨fun hw => hw.bare, fun hb => ⟨h, hb⟩⟩
  · push Not at heq
    obtain ⟨name, value, rfl⟩ := heq
    exact iff_of_false (tokens_describe_equality_ne h) fun hb => hb.2 name value rfl

/-- An exclusion of what is no word and no phrase is rejected and quoted by its description, and so
is whatever exclusion a query is rejected for. The quotation is read back as the exclusion that it
stands for if and only if this is not of a number compared for equality, and the values of a
comparison or an interval can do without the quotes that no description gives them. -/
theorem exclusion_read_back_iff {raw : Text} {ts : List Token} {t : Token}
    (h : tokens raw = .ok ts) (ht : .exclude t ∈ ts) (hfree : t.isFreeText = false) :
    (∀ s : Chain, s.pushExclusion t =
      .error (.malformed (.invalidExclusion ('-' :: t.describe)))) ∧
    (∀ v, Query.parse raw = .error (.malformed (.invalidExclusion v)) →
      ∃ u, .exclude u ∈ ts ∧ u.isFreeText = false ∧ v = '-' :: u.describe) ∧
    (tokens ('-' :: t.describe) = .ok [.exclude t] ↔
      t.StandsBare ∧ ∀ name value, t ≠ .range name .eq value) :=
  have hterm : t.IsTerm true := Lexeme.legible_of_tokens h _ ht
  ⟨fun _ => Chain.pushExclusion_eq_error_iff.mpr ⟨hfree, rfl⟩,
    fun _ => Query.exists_of_parse_eq_error h, tokens_describe_iff hterm hfree⟩

/-- The exclusion of a number of views is quoted with a mark, and not read back. -/
theorem exclusion_read_back_iff_number :
    let t : Token := .range "views".toList .eq ['5']
    tokens "-views:5".toList = .ok [.exclude t] ∧ t.isFreeText = false ∧
      Query.parse "-views:5".toList =
        .error (.malformed (.invalidExclusion "-views:=5".toList)) ∧
      tokens "-views:=5".toList ≠ .ok [.exclude t] := by
  intro t
  have hplain : Text.Plain ['5'] := ⟨by decide, List.all_eq_true.mp rfl⟩
  have hwell : WellFormed (.exclude t) :=
    ⟨⟨hplain.quotable, by simp [Comparison.EndsBefore], .inl rfl⟩, hplain⟩
  have hraw : tokens "-views:5".toList = .ok [.exclude t] := tokens_rendered hwell
  have hparse : Query.parse "-views:5".toList =
      .error (.malformed (.invalidExclusion "-views:=5".toList)) := by
    obtain ⟨ls, hls, hts⟩ := map_eq_ok_iff.mp hraw
    rw [Query.parse, hls]
    show Query.ofTokens (ls.map (·.token)) = _
    rw [hts]
    rfl
  refine ⟨hraw, rfl, hparse, fun hread => ?_⟩
  obtain ⟨-, -, hiff⟩ := exclusion_read_back_iff hraw List.mem_cons_self rfl
  exact (hiff.mp hread).2 _ _ rfl

end Token

end ArticleArchive
