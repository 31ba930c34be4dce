import Mathlib.Data.List.Pairwise
import ArticleArchive.Proofs.Query.Safety
import ArticleArchive.Proofs.Search.Order

namespace ArticleArchive

namespace Lexeme

open Token (enclosed)

def areLower (ls : Text) : Prop :=
  ∀ l ∈ ls, l.toLower = l ∧ l.toUpper.toLower = l ∧ l ≠ Text.longS

theorem areLower_directions : areLower "asc".toList ∧ areLower "desc".toList := by
  constructor <;> simp [areLower, Text.longS]

theorem toLower_of_matchesLetter {l c : Char} (hl : l.toLower = l) (hu : l.toUpper.toLower = l)
    (h : matchesLetter l c = true) (hc : c ≠ Text.longS) : c.toLower = l := by
  simp only [matchesLetter, Bool.or_eq_true, Bool.and_eq_true, beq_iff_eq] at h
  rcases h with (rfl | rfl) | ⟨-, h⟩
  · exact hl
  · exact hu
  · exact absurd h hc

theorem map_toLower_of_matchesWord {ls cs : Text} (hls : areLower ls)
    (h : matchesWord ls cs = true) (hs : Text.longS ∉ cs) : cs.map Char.toLower = ls := by
  fun_induction matchesWord ls cs with
  | case1 => rfl
  | case2 l ls c cs ih =>
    rw [Bool.and_eq_true] at h
    obtain ⟨hl, hu, -⟩ := hls l List.mem_cons_self
    have hc : c ≠ Text.longS := fun hc => hs (hc ▸ List.mem_cons_self)
    rw [List.map_cons, toLower_of_matchesLetter hl hu h.1 hc]
    rw [ih (fun m hm => hls m (List.mem_cons_of_mem l hm)) h.2
      fun hm => hs (List.mem_cons_of_mem c hm)]
  | case3 => simp at h

theorem longS_notMem_of_map_toLower {ls cs : Text} (hls : areLower ls)
    (h : cs.map Char.toLower = ls) : Text.longS ∉ cs := by
  intro hm
  have hm : Text.longS ∈ ls := by
    rw [← h]
    exact List.mem_map.mpr ⟨Text.longS, hm, by decide⟩
  exact (hls _ hm).2.2 rfl

/-- A word that passes for a direction is one in lower case, unless it has a U+017F. -/
theorem IsDirection.map_toLower_iff {word : Text} (h : IsDirection word) :
    word.map Char.toLower = "asc".toList ∨ word.map Char.toLower = "desc".toList ↔
      Text.longS ∉ word := by
  obtain ⟨hasc, hdesc⟩ := areLower_directions
  constructor
  · rintro (hw | hw)
    · exact longS_notMem_of_map_toLower hasc hw
    · exact longS_notMem_of_map_toLower hdesc hw
  · intro hs
    exact h.imp (map_toLower_of_matchesWord hasc · hs) (map_toLower_of_matchesWord hdesc · hs)

theorem IsDirection.descending_iff {word : Text} (h : IsDirection word) (key : Text) :
    SortSpec.descending ⟨key, word.map Char.toLower⟩ = true ↔
      matchesWord "desc".toList word = true ∧ Text.longS ∉ word := by
  obtain ⟨-, hdesc⟩ := areLower_directions
  rw [SortSpec.descending, beq_iff_eq]
  constructor
  · intro hw
    refine ⟨h.resolve_left fun hasc => ?_, longS_notMem_of_map_toLower hdesc hw⟩
    -- the two words have different lengths
    have hlength := congrArg List.length hw
    rw [List.length_map, length_of_matchesWord hasc] at hlength
    simp at hlength
  · intro hw
    exact map_toLower_of_matchesWord hdesc hw.1 hw.2

/-- `s` is a sort directive by `key` in the direction `word`, as it is written. -/
def IsDirective (s key word : Text) : Prop :=
  (∃ quoted, s = sortField ++ ':' :: enclosed quoted (key ++ ':' :: word)) ∧ IsDirection word

theorem isDirective_of_scanTerm {t r key direction : Text}
    (h : scanTerm false t = .ok (.sort key direction, r)) :
    ∃ s word, t = s ++ r ∧ IsDirective s key word ∧ direction = word.map Char.toLower := by
  rcases scanTerm_eq_ok_iff.mp h with
    ⟨_, ⟨⟩, -⟩ | ⟨name, rest, -, rfl, hfield⟩ | ⟨-, -, text, hk, -⟩
  · obtain ⟨quoted, value, rfl, hv, hfield⟩ := scanField_eq_ok_iff.mp hfield
    rcases fieldToken_eq_ok_iff.mp hfield with ⟨rfl, hk⟩ | ⟨-, hk⟩ | ⟨-, hk⟩ | ⟨-, -, -, hk⟩
    · obtain ⟨_, word, ⟨⟩, rfl, -, -, hw⟩ := sortToken?_eq_some_iff.mp hk
      exact ⟨_, word, by simp, ⟨⟨quoted, rfl⟩, hw⟩, rfl⟩
    · rcases dateToken_eq_ok_iff.mp hk with ⟨_, _, ⟨⟩, -⟩ | ⟨-, ⟨_, _, ⟨⟩, -⟩ | ⟨⟨⟩, -⟩⟩
    · obtain ⟨_, _, ⟨⟩, -⟩ := (numberToken_eq_ok_iff hv.quotable.1).mp hk
    · cases hk
  · unfold bareToken at hk
    split_ifs at hk

theorem isDirective_of_scanToken {t r key direction : Text}
    (h : scanToken t = .ok (.sort key direction, r)) :
    ∃ s word, t = s ++ r ∧ IsDirective s key word ∧ direction = word.map Char.toLower := by
  rcases scanToken_eq_ok_iff.mp h with ⟨_, _, _, -, -, ⟨⟩, -⟩ | ⟨-, hterm⟩
  exact isDirective_of_scanTerm hterm

theorem exists_scanToken_of_scanFrom {n : Nat} {t : Text} {ls : List Lexeme}
    (h : scanFrom n t = .ok ls) {raw p : Text} (hraw : raw = p ++ t) (hn : p.length = n) :
    ∀ l ∈ ls, ∃ r, scanToken (l.source raw ++ r) = .ok (l.token, r) := by
  fun_induction scanFrom n t generalizing ls p with
  | case1 n => simp [← Except.ok.inj h]
  | case2 n c cs hc ih => exact ih h (p := p ++ [c]) (by simp [hraw]) (by simp [hn])
  | case3 n c cs hc e he => simp at h
  | case4 n c cs hc k rest hk stop =>
    rename_i ih
    obtain ⟨ls', hls', rfl⟩ := map_eq_ok_iff.mp h
    obtain ⟨s, hs, -, -⟩ := scanToken_spelled hk
    have hstop : stop = n + s.length := by
      simp only [stop, hs, List.length_append]
      omega
    intro l hl
    rcases List.mem_cons.mp hl with rfl | hl
    · have hsource : source raw ⟨k, n, stop⟩ = s := by
        simp [source, hraw, hs, hstop, ← hn, List.take_append]
      exact ⟨rest, by rw [hsource, ← hs]; exact hk⟩
    · exact ih hls' (p := p ++ s) (by simp [hraw, hs]) (by simp [hn, hstop]) l hl

theorem isDirective_source {raw : Text} {ls : List Lexeme} (h : ofText raw = .ok ls) {l : Lexeme}
    (hl : l ∈ ls) {key direction : Text} (ht : l.token = .sort key direction) :
    ∃ word, IsDirective (l.source raw) key word ∧ direction = word.map Char.toLower := by
  have hscan := (ofText_eq_ok_iff.mp h).2
  obtain ⟨r, hr⟩ := exists_scanToken_of_scanFrom hscan (List.nil_append raw).symm rfl l hl
  rw [ht] at hr
  obtain ⟨s, word, hs, hd⟩ := isDirective_of_scanToken hr
  rw [List.append_cancel_right hs]
  exact ⟨word, hd⟩

end Lexeme

theorem Query.sort_of_parse {raw : Text} {q : Query} {ls : List Lexeme} (hq : parse raw = .ok q)
    (hls : Lexeme.ofText raw = .ok ls) :
    q.sort.toList = (ls.map (·.token)).filterMap Token.sortSpec? := by
  obtain ⟨ls', hls', h⟩ := parse_eq_ok_iff.mp hq
  obtain rfl : ls = ls' := Except.ok.inj (hls.symm.trans hls')
  obtain ⟨s, hs, h⟩ := bind_eq_ok_iff.mp h
  have hsort := (foldlM_addClause_frame (mapError_eq_ok_iff.mp h)).2
  rw [hsort, Chain.sort_of_ofTokens hs]

namespace SortKey

variable (k : SortKey) (terms : List Text) {as : List Article}

def Ascends (as : List Article) : Prop :=
  as.Pairwise fun a b => (k.rankKey terms a).le (k.rankKey terms b) = true

def Descends (as : List Article) : Prop :=
  as.Pairwise fun a b => (k.rankKey terms b).le (k.rankKey terms a) = true

variable {k terms}

theorem rankKey_eq_of_both (ha : k.Ascends terms as) (hd : k.Descends terms as) :
    ∀ a ∈ as, ∀ b ∈ as, k.rankKey terms a = k.rankKey terms b := by
  have hsame : as.Pairwise fun a b => k.rankKey terms a = k.rankKey terms b := by
    refine (List.pairwise_and_iff.mpr ⟨ha, hd⟩).imp fun h => ?_
    exact RankKey.le_antisymm h.1 h.2
  let SameKey (a b : Article) : Prop := k.rankKey terms a = k.rankKey terms b
  have : Std.Symm SameKey := ⟨fun _ _ h => h.symm⟩
  intro a hma b hmb
  exact List.Pairwise.forall_of_forall (R := SameKey) (fun _ _ => rfl) hsame hma hmb

end SortKey

theorem arrange?_eq_some {s : SortSpec} {terms : List Text} {as bs : List Article}
    (h : arrange? (some s) terms as = some bs) :
    ∃ k, SortKey.ofText? s.key = some k ∧ bs.Perm as ∧
      if s.descending = true then k.Descends terms bs else k.Ascends terms bs := by
  have hperm := arrange?_perm h
  obtain ⟨k, hk, rfl⟩ := Option.map_eq_some_iff.mp h
  refine ⟨k, hk, hperm, ?_⟩
  have hp := orderByKey_pairwise s.descending (fun a => k.rankKey terms a)
    (as.mergeSort fun a b => a.idLe b)
  cases hd : s.descending with
  | false =>
    rw [hd] at hp
    simpa [SortKey.Ascends, RankKey.before] using hp
  | true =>
    rw [hd] at hp
    simpa [SortKey.Descends, RankKey.before] using hp

namespace SearchOutcome

theorem ofQuery_eq_ok {q : Query} {corpus : List Article} {o : SearchOutcome}
    (h : ofQuery q corpus = .ok o) :
    ∃ found, q.execute corpus = .ok found ∧ arrange? q.sort q.terms found = some o.articles ∧
      o.terms = q.terms := by
  obtain ⟨found, hfound, h⟩ := bind_eq_ok_iff.mp h
  dsimp only at h
  split at h
  · rename_i articles ha
    obtain rfl := Except.ok.inj h
    exact ⟨found, mapError_eq_ok_iff.mp hfound, ha, rfl⟩
  · simp [throw, throwThe, MonadExceptOf.throw] at h

theorem ofText_of_arrange {raw : Text} {q : Query} {corpus found bs : List Article}
    (hraw : Query.isBlankText raw = false) (hq : Query.compile raw = .ok q)
    (hfound : q.execute corpus = .ok found) (hbs : arrange? q.sort q.terms found = some bs) :
    ofText raw corpus =
      .ok { query := some q, articles := bs, sort := q.effectiveSort, terms := q.terms } := by
  rw [Query.ofText_of_compile hraw hq, ofQuery, hfound]
  dsimp only [Except.mapError, bind, Except.bind]
  rw [hbs]
  rfl

end SearchOutcome

namespace Query

open Lexeme (IsDirective matchesWord)

/-- An accepted query with a sort directive is ordered by it. The direction is kept as `asc` or
`desc` unless it was written with a U+017F; it counts as downwards if it was written as `desc`
without one. The results are what the query finds, by descending keys in that case and by ascending
ones in all others, and as soon as two of them differ in their keys it is the one or the other. -/
theorem results_follow_directive {raw : Text} {q : Query} {ls : List Lexeme} {l : Lexeme}
    {key direction : Text} (hq : compile raw = .ok q) (hls : Lexeme.ofText raw = .ok ls)
    (hl : l ∈ ls) (ht : l.token = .sort key direction) :
    q.sort = some ⟨key, direction⟩ ∧
    ∃ word, IsDirective (l.source raw) key word ∧
      (direction = "asc".toList ∨ direction = "desc".toList ↔ Text.longS ∉ word) ∧
      (SortSpec.descending ⟨key, direction⟩ = true ↔
        matchesWord "desc".toList word = true ∧ Text.longS ∉ word) ∧
      ∃ k, SortKey.ofText? key = some k ∧ ∀ corpus : List Article,
        ((∃ o, SearchOutcome.ofText raw corpus = .ok o) ↔ ∀ a ∈ corpus, ¬ q.Stuck a) ∧
        ∀ o, SearchOutcome.ofText raw corpus = .ok o →
          (∃ found, q.execute corpus = .ok found ∧ o.articles.Perm found) ∧
          (matchesWord "desc".toList word = true ∧ Text.longS ∉ word →
            k.Descends o.terms o.articles) ∧
          (¬ (matchesWord "desc".toList word = true ∧ Text.longS ∉ word) →
            k.Ascends o.terms o.articles) ∧
          ((∃ a ∈ o.articles, ∃ b ∈ o.articles, k.rankKey o.terms a ≠ k.rankKey o.terms b) →
            (k.Descends o.terms o.articles ↔
              matchesWord "desc".toList word = true ∧ Text.longS ∉ word)) := by
  obtain ⟨hparse, hp⟩ := compile_eq_ok_iff.mp hq
  have hsound := parse_sound hparse hp
  have hsort : q.sort = some ⟨key, direction⟩ := by
    have hmem : ⟨key, direction⟩ ∈ q.sort.toList := by
      rw [sort_of_parse hparse hls]
      exact List.mem_filterMap.mpr ⟨_, List.mem_map_of_mem hl, by rw [ht]; rfl⟩
    simpa using hmem
  have hraw : isBlankText raw = false := by
    by_contra hb
    rw [Lexeme.eq_nil_of_ofText_blank (by simpa using hb) hls] at hl
    simp at hl
  -- the directive as it is written, before its letters are taken to lower case
  obtain ⟨word, hdirective, rfl⟩ := Lexeme.isDirective_source hls hl ht
  have hdescending := hdirective.2.descending_iff key
  obtain ⟨k, hk⟩ := SortKey.exists_of_problems (hsound.sort _ hsort)
  refine ⟨hsort, word, hdirective, hdirective.2.map_toLower_iff, hdescending, k, hk,
    fun corpus => ?_⟩
  rw [ofText_of_compile hraw hq]
  refine ⟨(SearchOutcome.ofQuery_ok_iff hsound).trans (execute_ok_iff hsound), fun o ho => ?_⟩
  obtain ⟨found, hfound, harrange, hterms⟩ := SearchOutcome.ofQuery_eq_ok ho
  rw [hsort, ← hterms] at harrange
  obtain ⟨k', hk', hperm, hordered⟩ := arrange?_eq_some harrange
  obtain rfl : k = k' := Option.some.inj (hk.symm.trans hk')
  have hdown (hw : matchesWord "desc".toList word = true ∧ Text.longS ∉ word) :
      k.Descends o.terms o.articles := by
    rwa [if_pos (hdescending.mpr hw)] at hordered
  have hup (hw : ¬ (matchesWord "desc".toList word = true ∧ Text.longS ∉ word)) :
      k.Ascends o.terms o.articles := by
    rwa [if_neg (hdescending.not.mpr hw)] at hordered
  refine ⟨⟨found, hfound, hperm⟩, hdown, hup, fun ⟨a, ha, b, hb, hne⟩ => ⟨fun hd => ?_, hdown⟩⟩
  -- standing in both directions, all articles would have one key
  by_contra hw
  exact hne (SortKey.rankKey_eq_of_both (hup hw) hd a ha b hb)

/-- Written with a U+017F, `desc` passes for a direction and orders upwards. -/
theorem results_ascend_by_longS :
    let raw := "sort:date:de\u017Fc".toList
    ∃ q, compile raw = .ok q ∧ q.sort = some ⟨"date".toList, "de\u017Fc".toList⟩ ∧
      matchesWord "desc".toList "de\u017Fc".toList = true ∧
      ∀ corpus o, SearchOutcome.ofText raw corpus = .ok o →
        SortKey.date.Ascends o.terms o.articles := by
  intro raw
  let l : Lexeme := ⟨.sort "date".toList "de\u017Fc".toList, 0, 14⟩
  let q : Query := { sort := some ⟨"date".toList, "de\u017Fc".toList⟩ }
  have htoken : Lexeme.scanToken raw = .ok (l.token, []) := by decide +kernel
  have hscan : Lexeme.scanFrom 0 raw = .ok [l] :=
    Lexeme.scanFrom_token_ok rfl htoken rfl (Lexeme.scanFrom_nil 14)
  have hraw : Text.Balanced raw := rfl
  have hls := Lexeme.ofText_ok hraw hscan
  have hparse : ofTokens ([l].map (·.token)) = .ok q := rfl
  have hq : compile raw = .ok q :=
    compile_eq_ok_iff.mpr ⟨parse_eq_ok_iff.mpr ⟨[l], hls, hparse⟩, rfl⟩
  obtain ⟨hsort, word, -, hletters, -, k, hk, hresults⟩ :=
    results_follow_directive hq hls List.mem_cons_self rfl
  obtain rfl : SortKey.date = k := Option.some.inj hk
  have hs : Text.longS ∈ word := by
    by_contra hs
    exact absurd (hletters.mpr hs) (by decide)
  refine ⟨q, hq, hsort, rfl, fun corpus o ho => ?_⟩
  obtain ⟨-, -, hup, -⟩ := (hresults corpus).2 o ho
  exact hup fun hw => hw.2 hs

end Query

end ArticleArchive
