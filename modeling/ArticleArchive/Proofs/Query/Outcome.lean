import ArticleArchive.Proofs.Query.Idle
import ArticleArchive.Proofs.Query.Reading
import ArticleArchive.Proofs.Query.Scan

namespace ArticleArchive

namespace Token

variable {ts us : List Token}

/-- Every run of `ts` is a run of `us` but for the order of its tokens. -/
def RunsIn (ts us : List Token) : Prop :=
  ∀ run, IsOrRun ts run → ∃ run', IsOrRun us run' ∧ ∀ t, t ∈ run' ↔ t ∈ run

/-- The runs and the exclusions are the same, in whatever order they stand. -/
structure Rearranged (ts us : List Token) : Prop where
  runs : RunsIn ts us
  runs_back : RunsIn us ts
  exclusions : ∀ t, .exclude t ∈ ts ↔ .exclude t ∈ us

theorem RunsIn.exists_holds (h : RunsIn ts us) {a : Article}
    (hall : ∀ run, IsOrRun us run → ∃ t ∈ run, t.Holds a) :
    ∀ run, IsOrRun ts run → ∃ t ∈ run, t.Holds a := by
  intro run hrun
  obtain ⟨run', hrun', hsame⟩ := h run hrun
  obtain ⟨t, ht, hold⟩ := hall run' hrun'
  exact ⟨t, (hsame t).mp ht, hold⟩

theorem Rearranged.reads_iff (h : Rearranged ts us) (a : Article) : Reads ts a ↔ Reads us a := by
  simp only [Reads, h.exclusions]
  exact and_congr_left fun _ => ⟨h.runs_back.exists_holds, h.runs.exists_holds⟩

theorem Rearranged.numbersShort (h : Rearranged ts us) (hn : NumbersShort ts) :
    NumbersShort us := by
  intro name op value hm hne
  obtain ⟨run, hrun, ht⟩ := exists_mem_orRuns hm rfl
  obtain ⟨run', hrun', hsame⟩ := h.runs_back run (mem_orRuns_iff.mp hrun)
  have hmem := (isClause_of_mem_orRuns (mem_orRuns_iff.mpr hrun')).2 _ ((hsame _).mpr ht)
  exact hn name op value hmem.2 hne

end Token

namespace Query

open Token (Reads NumbersShort Rearranged)

theorem accepts_eq_reads {ts : List Token} {q : Query} (h : MadeOf ts q) (hs : q.Sound)
    (hn : NumbersShort ts) (a : Article) : q.accepts a = .ok (decide (Reads ts a)) := by
  obtain ⟨b, hb, hholds⟩ := (settles_accepts hs a).2 (h.not_stuck hn a)
  rw [hb, Except.ok.injEq, Bool.eq_iff_iff, hholds, h.holds, decide_eq_true_iff]

theorem madeOf_of_compile {raw : Text} {q : Query} {ls : List Lexeme} (hq : compile raw = .ok q)
    (hls : Lexeme.ofText raw = .ok ls) : MadeOf (ls.map (·.token)) q ∧ q.Sound := by
  obtain ⟨hparse, hp⟩ := compile_eq_ok_iff.mp hq
  obtain ⟨ls', hls', hts⟩ := parse_eq_ok_iff.mp hparse
  obtain rfl : ls = ls' := Except.ok.inj (hls.symm.trans hls')
  have hmarks := Lexeme.marksKnown_of_ofText hls
  have hmade := ofTokens_madeOf hts hmarks
  exact ⟨hmade, hmade.sound hmarks hp⟩

theorem accepts_of_compile {raw : Text} {q : Query} {ls : List Lexeme} (hq : compile raw = .ok q)
    (hls : Lexeme.ofText raw = .ok ls) (hn : NumbersShort (ls.map (·.token))) (a : Article) :
    q.accepts a = .ok (decide (Reads (ls.map (·.token)) a)) := by
  obtain ⟨hmade, hs⟩ := madeOf_of_compile hq hls
  exact accepts_eq_reads hmade hs hn a

theorem execute_of_compile {raw : Text} {q : Query} {ls : List Lexeme} (hq : compile raw = .ok q)
    (hls : Lexeme.ofText raw = .ok ls) (hn : NumbersShort (ls.map (·.token)))
    (corpus : List Article) :
    q.execute corpus = .ok (corpus.filter fun a => Reads (ls.map (·.token)) a) :=
  execute_eq_filter fun a _ => accepts_of_compile hq hls hn a

/-- An accepted query all numbers of which can be read finds the articles that its tokens ask for,
in the order of the corpus. Other queries with the same runs and exclusions find the same, and
without `AND` and sort directives the tokens make the same query but for the order of results. -/
theorem execute_eq_flat_reading {raw : Text} {q : Query} (hq : compile raw = .ok q) :
    ∃ ls, Lexeme.ofText raw = .ok ls ∧
      (NumbersShort (ls.map (·.token)) →
        (∀ corpus : List Article,
          q.execute corpus = .ok (corpus.filter fun a => Reads (ls.map (·.token)) a)) ∧
        ∀ raw' q' ls', compile raw' = .ok q' → Lexeme.ofText raw' = .ok ls' →
          Rearranged (ls.map (·.token)) (ls'.map (·.token)) →
          ∀ corpus, q'.execute corpus = q.execute corpus) ∧
      ofTokens ((ls.map (·.token)).filter fun t => !t.isIdle) = .ok { q with sort := none } ∧
      ∀ corpus, Query.execute { q with sort := none } corpus = q.execute corpus := by
  obtain ⟨ls, hls, hts⟩ := parse_eq_ok_iff.mp (compile_eq_ok_iff.mp hq).1
  refine ⟨ls, hls, fun hn => ⟨execute_of_compile hq hls hn, ?_⟩, ofTokens_filter_idle hts,
    execute_sort q none⟩
  intro raw' q' ls' hq' hls' hr corpus
  -- both results are filters of the corpus, and the filters agree
  have hsame : (fun a => decide (Reads (ls'.map (·.token)) a)) =
      fun a => decide (Reads (ls.map (·.token)) a) := by
    funext a
    exact decide_eq_decide.mpr (hr.reads_iff a).symm
  rw [execute_of_compile hq' hls' (hr.numbersShort hn), execute_of_compile hq hls hn, hsame]

theorem execute_eq_flat_reading_of_or :
    ∃ q, compile "a OR views:>5 -c".toList = .ok q ∧ ∀ corpus : List Article,
      q.execute corpus = .ok (corpus.filter fun a => Reads [.word ['a'], .connective .or,
        .range "views".toList .gt ['5'], .exclude (.word ['c'])] a) := by
  let ls : List Lexeme := [⟨.word ['a'], 0, 1⟩, ⟨.connective .or, 2, 4⟩,
    ⟨.range "views".toList .gt ['5'], 5, 13⟩, ⟨.exclude (.word ['c']), 14, 16⟩]
  let q : Query := {
    required := [.or (.term ⟨['a'], false⟩) (.range ⟨.views, .gt, ['5']⟩)]
    excluded := [⟨['c'], false⟩] }
  have h₁ : Lexeme.scanFrom 13 " -c".toList = .ok (ls.drop 3) :=
    (Lexeme.scanFrom_blank rfl).trans
      (Lexeme.scanFrom_token_ok rfl rfl rfl (Lexeme.scanFrom_nil 16))
  have h₂ : Lexeme.scanFrom 4 " views:>5 -c".toList = .ok (ls.drop 2) :=
    (Lexeme.scanFrom_blank rfl).trans (Lexeme.scanFrom_token_ok rfl rfl rfl h₁)
  have h₃ : Lexeme.scanFrom 1 " OR views:>5 -c".toList = .ok (ls.drop 1) :=
    (Lexeme.scanFrom_blank rfl).trans (Lexeme.scanFrom_token_ok rfl rfl rfl h₂)
  have h₄ : Lexeme.scanFrom 0 "a OR views:>5 -c".toList = .ok ls :=
    Lexeme.scanFrom_token_ok rfl rfl rfl h₃
  have hraw : Text.Balanced "a OR views:>5 -c".toList := rfl
  have hls := Lexeme.ofText_ok hraw h₄
  have hparse : ofTokens (ls.map (·.token)) = .ok q := rfl
  have hq : compile "a OR views:>5 -c".toList = .ok q :=
    compile_eq_ok_iff.mpr ⟨parse_eq_ok_iff.mpr ⟨ls, hls, hparse⟩, rfl⟩
  obtain ⟨ls', hls', hreading, -⟩ := execute_eq_flat_reading hq
  obtain rfl : ls = ls' := Except.ok.inj (hls.symm.trans hls')
  refine ⟨q, hq, (hreading ?_).1⟩
  intro name op value hm _
  obtain ⟨-, -, rfl⟩ := by simpa [ls] using hm
  decide

end Query

end ArticleArchive
