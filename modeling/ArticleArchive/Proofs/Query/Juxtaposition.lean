import ArticleArchive.Proofs.Query.Outcome
import ArticleArchive.Proofs.Query.Seam

namespace ArticleArchive

namespace Token

variable {ts us run run' : List Token} {a : Article}

theorem reads_append (hj : ¬ EndsJoined ts) (hn : joinsNext us = false) :
    Reads (ts ++ us) a ↔ Reads ts a ∧ Reads us a := by
  simp only [reads_iff, orRuns_append (fun h => absurd h hj) hn, List.filterMap_append,
    List.forall_mem_append]
  exact and_and_and_comm

theorem NumbersShort.append (ht : NumbersShort ts) (hu : NumbersShort us) :
    NumbersShort (ts ++ us) := by
  intro name op value hm hne
  rcases List.mem_append.mp hm with hm | hm
  · exact ht name op value hm hne
  · exact hu name op value hm hne

theorem mem_joined {t : Token} (h : t ∈ joined run) : t ∈ run ∨ t = .connective .or := by
  induction run using joined.induct with
  | case1 => exact .inl h
  | case2 u => exact .inl h
  | case3 u v vs ih =>
    rcases List.mem_cons.mp h with rfl | h
    · exact .inl List.mem_cons_self
    · rcases List.mem_cons.mp h with rfl | h
      · exact .inr rfl
      · exact (ih h).imp_left (List.mem_cons_of_mem u)

theorem joined_append (hr : run ≠ []) (hr' : run' ≠ []) :
    joined run ++ .connective .or :: joined run' = joined (run ++ run') := by
  induction run using joined.induct with
  | case1 => exact absurd rfl hr
  | case2 t =>
    obtain ⟨u, us, rfl⟩ := List.exists_cons_of_ne_nil hr'
    rfl
  | case3 t u us ih =>
    have ih := ih (List.cons_ne_nil _ _)
    simpa [joined] using ih

theorem reads_joined (hr : run ≠ []) (hc : ∀ t ∈ run, t.isClause = true) :
    Reads (joined run) a ↔ ∃ t ∈ run, t.Holds a := by
  have hruns : orRuns (joined run) = [run] := by
    rw [← List.append_nil (joined run)]
    exact orRuns_joined_append hr hc rfl
  have hterms : (joined run).filterMap excludedTerm? = [] := by
    apply List.filterMap_eq_nil_iff.mpr
    intro t ht
    rcases mem_joined ht with ht | rfl
    · have hclause := hc t ht
      cases t with
      | exclude t => simp [isClause] at hclause
      | _ => rfl
    · rfl
  simp [reads_iff, hruns, hterms]

end Token

namespace Query

open Token (Reads NumbersShort joined joinsNext EndsJoined)

variable {p q : Text} {ls ms : List Lexeme}

theorem ends_of_compile {x : Query} (hx : compile p = .ok x) (hls : Lexeme.ofText p = .ok ls) :
    (∀ c us, ls.map (·.token) ≠ .connective c :: us) ∧
      Token.pending? (ls.map (·.token)) = none := by
  obtain ⟨ls', hls', hts⟩ := parse_eq_ok_iff.mp (compile_eq_ok_iff.mp hx).1
  obtain rfl : ls = ls' := Except.ok.inj (hls.symm.trans hls')
  obtain ⟨s, hs, -⟩ := bind_eq_ok_iff.mp hts
  exact Chain.ofTokens_ends hs

theorem tokens_beside (hls : Lexeme.ofText p = .ok ls) (hms : Lexeme.ofText q = .ok ms) :
    ∃ ks, Lexeme.ofText (p ++ ' ' :: q) = .ok ks ∧
      ks.map (·.token) = ls.map (·.token) ++ ms.map (·.token) := by
  refine ⟨_, Lexeme.ofText_append (by decide) hls hms, ?_⟩
  rw [List.map_append, Lexeme.map_token_shift]

theorem tokens_or (hls : Lexeme.ofText p = .ok ls) (hms : Lexeme.ofText q = .ok ms) :
    ∃ ks, Lexeme.ofText (p ++ " OR ".toList ++ q) = .ok ks ∧
      ks.map (·.token) = ls.map (·.token) ++ .connective .or :: ms.map (·.token) := by
  have hword : Lexeme.ofText "OR".toList = .ok [⟨.connective .or, 0, 2⟩] :=
    Lexeme.ofText_ok rfl (Lexeme.scanFrom_token_ok rfl rfl rfl (Lexeme.scanFrom_nil 2))
  obtain ⟨ks, hks, hk⟩ := tokens_beside hword hms
  obtain ⟨js, hjs, hj⟩ := tokens_beside hls hks
  refine ⟨js, ?_, ?_⟩
  · rw [List.append_assoc]
    exact hjs
  · rw [hj, hk]
    rfl

theorem reads_beside {x y : Query} (hx : compile p = .ok x) (hy : compile q = .ok y)
    (hls : Lexeme.ofText p = .ok ls) (hms : Lexeme.ofText q = .ok ms) (a : Article) :
    Reads (ls.map (·.token) ++ ms.map (·.token)) a ↔
      Reads (ls.map (·.token)) a ∧ Reads (ms.map (·.token)) a := by
  -- neither text has a connective where they meet
  apply Token.reads_append
  · intro h
    have hend := (ends_of_compile hx hls).2
    rw [Chain.pending?_of_endsJoined h] at hend
    simp at hend
  · apply Bool.eq_false_iff.mpr
    intro h
    obtain ⟨u, us, hus, -⟩ := Token.exists_of_joinsNext h
    exact (ends_of_compile hy hms).1 _ _ hus

theorem reads_or {run run' : List Token} (hr : run ≠ []) (hr' : run' ≠ [])
    (hc : ∀ t ∈ run ++ run', t.isClause = true) (a : Article) :
    Reads (joined run ++ .connective .or :: joined run') a ↔
      Reads (joined run) a ∨ Reads (joined run') a := by
  rw [Token.joined_append hr hr', Token.reads_joined (by simp [hr]) hc,
    Token.reads_joined hr fun t ht => hc t (List.mem_append_left _ ht),
    Token.reads_joined hr' fun t ht => hc t (List.mem_append_right _ ht)]
  simp only [List.mem_append, or_and_right, exists_or]

/-- Of two accepted queries, the text of both with a blank between them finds what both find, and
if each is clauses joined by `OR`, then with `OR` between them it finds what the one or the other
finds. -/
theorem execute_beside_and_or {x y : Query} (hx : compile p = .ok x) (hy : compile q = .ok y)
    (hls : Lexeme.ofText p = .ok ls) (hms : Lexeme.ofText q = .ok ms)
    (hn : NumbersShort (ls.map (·.token))) (hm : NumbersShort (ms.map (·.token)))
    (corpus : List Article) :
    ∃ found found', x.execute corpus = .ok found ∧ y.execute corpus = .ok found' ∧
      (∀ z, compile (p ++ ' ' :: q) = .ok z →
        ∃ both, z.execute corpus = .ok both ∧ y.execute found = .ok both ∧
          ∀ a, a ∈ both ↔ a ∈ found ∧ a ∈ found') ∧
      ∀ run run' z, ls.map (·.token) = joined run → ms.map (·.token) = joined run' →
        (∀ t ∈ run ++ run', t.isClause = true) → compile (p ++ " OR ".toList ++ q) = .ok z →
        ∃ either, z.execute corpus = .ok either ∧ ∀ a, a ∈ either ↔ a ∈ found ∨ a ∈ found' := by
  have hexec := execute_of_compile hy hms hm
  refine ⟨_, _, execute_of_compile hx hls hn corpus, hexec corpus, ?_, ?_⟩
  · intro z hz
    obtain ⟨ks, hks, hk⟩ := tokens_beside hls hms
    have hshort : NumbersShort (ks.map (·.token)) := hk ▸ hn.append hm
    have hreads := reads_beside hx hy hls hms
    refine ⟨_, execute_of_compile hz hks hshort corpus, ?_, ?_⟩
    · rw [hexec, List.filter_filter, hk]
      simp only [hreads, Bool.decide_and, Bool.and_comm]
    · intro a
      simp only [hk, List.mem_filter, hreads, decide_eq_true_eq]
      tauto
  · intro run run' z hrun hrun' hc hz
    obtain ⟨ks, hks, hk⟩ := tokens_or hls hms
    have hshort : NumbersShort (ks.map (·.token)) := by
      rw [hk]
      refine hn.append fun name op value hmem => hm name op value ?_
      simpa using hmem
    -- neither run is empty, or the query would begin or end with `OR`
    obtain ⟨hhead, hlast⟩ := ends_of_compile hz hks
    rw [hk, hrun, hrun'] at hhead hlast
    have hr : run ≠ [] := by
      rintro rfl
      exact hhead _ _ rfl
    have hr' : run' ≠ [] := by
      rintro rfl
      simp [joined, Token.pending?] at hlast
    refine ⟨_, execute_of_compile hz hks hshort corpus, fun a => ?_⟩
    simp only [hk, hrun, hrun', List.mem_filter, reads_or hr hr' hc, decide_eq_true_eq]
    tauto

theorem execute_beside_and_or_views :
    ∃ x y z w, compile "a OR b".toList = .ok x ∧ compile "views:>5".toList = .ok y ∧
      compile "a OR b views:>5".toList = .ok z ∧ compile "a OR b OR views:>5".toList = .ok w ∧
      ∀ corpus, ∃ found found' both either, x.execute corpus = .ok found ∧
        y.execute corpus = .ok found' ∧ z.execute corpus = .ok both ∧
        w.execute corpus = .ok either ∧ (∀ a, a ∈ both ↔ a ∈ found ∧ a ∈ found') ∧
        ∀ a, a ∈ either ↔ a ∈ found ∨ a ∈ found' := by
  let run : List Token := [.word ['a'], .word ['b']]
  let range : Token := .range "views".toList .gt ['5']
  let ls : List Lexeme :=
    [⟨.word ['a'], 0, 1⟩, ⟨.connective .or, 2, 4⟩, ⟨.word ['b'], 5, 6⟩]
  have h₁ : Lexeme.scanFrom 4 " b".toList = .ok (ls.drop 2) :=
    (Lexeme.scanFrom_blank rfl).trans
      (Lexeme.scanFrom_token_ok rfl rfl rfl (Lexeme.scanFrom_nil 6))
  have h₂ : Lexeme.scanFrom 1 " OR b".toList = .ok (ls.drop 1) :=
    (Lexeme.scanFrom_blank rfl).trans (Lexeme.scanFrom_token_ok rfl rfl rfl h₁)
  have hls : Lexeme.ofText "a OR b".toList = .ok ls :=
    Lexeme.ofText_ok rfl (Lexeme.scanFrom_token_ok rfl rfl rfl h₂)
  have hms : Lexeme.ofText "views:>5".toList = .ok [⟨range, 0, 8⟩] :=
    Lexeme.ofText_ok rfl (Lexeme.scanFrom_token_ok rfl rfl rfl (Lexeme.scanFrom_nil 8))
  have hx : compile "a OR b".toList = .ok
      { required := [.or (.term ⟨['a'], false⟩) (.term ⟨['b'], false⟩)] } :=
    compile_of_ofText hls rfl rfl
  have hy : compile "views:>5".toList = .ok { views := [⟨.views, .gt, ['5']⟩] } :=
    compile_of_ofText hms rfl rfl
  have hn : NumbersShort (ls.map (·.token)) := by
    intro name op value hm _
    simp [ls] at hm
  have hm : NumbersShort [range] := by
    intro name op value hm _
    obtain ⟨-, -, rfl⟩ := by simpa [range] using hm
    decide
  obtain ⟨ks, hks, hk⟩ := tokens_beside hls hms
  obtain ⟨js, hjs, hj⟩ := tokens_or hls hms
  have hz : compile "a OR b views:>5".toList = .ok
      { required := [.or (.term ⟨['a'], false⟩) (.term ⟨['b'], false⟩)]
        views := [⟨.views, .gt, ['5']⟩] } :=
    compile_of_ofText hks (by rw [hk]; rfl) rfl
  have hw : compile "a OR b OR views:>5".toList = .ok
      { required := [.or (.or (.term ⟨['a'], false⟩) (.term ⟨['b'], false⟩))
          (.range ⟨.views, .gt, ['5']⟩)] } :=
    compile_of_ofText hjs (by rw [hj]; rfl) rfl
  refine ⟨_, _, _, _, hx, hy, hz, hw, fun corpus => ?_⟩
  obtain ⟨found, found', hfound, hfound', hand, hor⟩ :=
    execute_beside_and_or hx hy hls hms hn hm corpus
  obtain ⟨both, hboth, -, hmem⟩ := hand _ hz
  obtain ⟨either, heither, hmem'⟩ := hor run [range] _ rfl rfl (by decide) hw
  exact ⟨found, found', both, either, hfound, hfound', hboth, heither, hmem, hmem'⟩

end Query

end ArticleArchive
