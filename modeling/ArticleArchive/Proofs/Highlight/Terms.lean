import ArticleArchive.Highlight
import ArticleArchive.Proofs.Firsts
import ArticleArchive.Proofs.Query.Problems

namespace ArticleArchive

/-- What a token asks to find as it is written: its text, or its value if that is in quotes. -/
inductive Token.Seeks : Token → Text → Prop
  | word (t : Text) : Seeks (.word t) t
  | phrase (t : Text) : Seeks (.phrase t) t
  | quoted (name value : Text) : Seeks (.field name value true) value

namespace Clause

theorem freeText?_ofToken? {t : Token} {c : Clause} (h : ofToken? t = some c) {text : Text} :
    c.freeText? = some text ↔ t.Seeks text := by
  constructor
  · intro hc
    cases t with
    | word | phrase =>
      obtain rfl := Option.some.inj h
      obtain rfl := Option.some.inj hc
      constructor
    | field name value quoted =>
      obtain rfl := Option.some.inj h
      cases quoted with
      | false => simp [freeText?] at hc
      | true =>
        obtain rfl : value = text := by simpa [freeText?] using hc
        exact .quoted name value
    | range | dates =>
      obtain rfl := Option.some.inj h
      simp [freeText?] at hc
    | _ => simp [ofToken?] at h
  · intro ht
    cases ht <;> (obtain rfl := Option.some.inj h; rfl)

theorem exists_ofToken?_of_seeks {t : Token} {text : Text} (h : t.Seeks text) :
    ∃ c, ofToken? t = some c := by
  cases h <;> exact ⟨_, rfl⟩

theorem isOfDays_of_freeText? {c : Clause} {text : Text} (h : c.freeText? = some text) :
    c.isOfDays = false := by
  cases c with
  | term | field => rfl
  | _ => simp [freeText?] at h

end Clause

theorem distinctFolds_eq (seen ts : List Text) :
    distinctFolds seen ts = (firstsBy Text.fold ts).filter fun t => Text.fold t ∉ seen := by
  induction ts generalizing seen with
  | nil => rfl
  | cons t ts ih =>
    rw [distinctFolds, firstsBy]
    by_cases hseen : Text.fold t ∈ seen
    · rw [if_pos (by simpa using hseen), ih, List.filter_cons_of_neg (by simpa using hseen),
        List.filter_filter]
      refine List.filter_congr fun u _ => ?_
      by_cases hu : Text.fold u = Text.fold t <;> simp [hu, hseen]
    · rw [if_neg (by simpa using hseen), ih, List.filter_cons_of_pos (by simpa using hseen),
        List.filter_filter]
      simp [Bool.and_comm]

namespace Query

variable {q : Query} {ts : List Token}

theorem terms_eq (q : Query) :
    q.terms = firstsBy Text.fold (q.clauses.filterMap Clause.freeText?) := by
  simp [terms, distinctFolds_eq]

/-- Regrouped as they are, the clauses of a query are those of its tokens, but for days that became
ends of its interval. -/
theorem mem_clauses_of_ofTokens (h : ofTokens ts = .ok q) {c : Clause} (hc : c.isOfDays = false) :
    c ∈ q.clauses ↔ ∃ t ∈ ts, Clause.ofToken? t = some c := by
  obtain ⟨s, cs, -, hruns, hkeeps, -⟩ := exists_keeps_of_ofTokens h
  have hperm : (q.clauses ++ cs.filter Clause.isOfDays).Perm (ts.filterMap Clause.ofToken?) := by
    rw [← Clause.filterMap_ofToken?_filter, ← Token.flatten_orRuns,
      ← Clause.flatMap_leaves_of_map_ofRun? hruns]
    exact hkeeps.perm_leaves
  rw [← List.mem_filterMap, ← hperm.mem_iff]
  simp [hc]

theorem mem_freeTexts_iff (h : ofTokens ts = .ok q) {text : Text} :
    text ∈ q.clauses.filterMap Clause.freeText? ↔ ∃ t ∈ ts, t.Seeks text := by
  rw [List.mem_filterMap]
  constructor
  · rintro ⟨c, hc, htext⟩
    obtain ⟨t, ht, htc⟩ :=
      (mem_clauses_of_ofTokens h (Clause.isOfDays_of_freeText? htext)).mp hc
    exact ⟨t, ht, (Clause.freeText?_ofToken? htc).mp htext⟩
  · rintro ⟨t, ht, hseeks⟩
    obtain ⟨c, htc⟩ := Clause.exists_ofToken?_of_seeks hseeks
    have htext := (Clause.freeText?_ofToken? htc).mpr hseeks
    exact ⟨c, (mem_clauses_of_ofTokens h (Clause.isOfDays_of_freeText? htext)).mpr ⟨t, ht, htc⟩,
      htext⟩

theorem mem_terms_iff {text : Text} :
    text ∈ q.terms ↔ ∃ before c after, q.clauses = before ++ c :: after ∧
      c.freeText? = some text ∧
        ∀ d ∈ before, ∀ u, d.freeText? = some u → Text.fold u ≠ Text.fold text := by
  rw [terms_eq, mem_firstsBy_iff]
  constructor
  · rintro ⟨texts, rest, hsplit, hfirst⟩
    obtain ⟨before, cs, hclauses, rfl, hcs⟩ := List.filterMap_eq_append_iff.mp hsplit
    obtain ⟨silent, c, after, rfl, hsilent, hc, -⟩ := List.filterMap_eq_cons_iff.mp hcs
    refine ⟨before ++ silent, c, after, by simpa using hclauses, hc, fun d hd u hu => ?_⟩
    rcases List.mem_append.mp hd with hd | hd
    · exact hfirst u (List.mem_filterMap.mpr ⟨d, hd, hu⟩)
    · simp [hsilent d hd] at hu
  · rintro ⟨before, c, after, hclauses, hc, hfirst⟩
    refine ⟨before.filterMap Clause.freeText?, after.filterMap Clause.freeText?, ?_, ?_⟩
    · simp [hclauses, hc]
    · intro u hu
      obtain ⟨d, hd, hu⟩ := List.mem_filterMap.mp hu
      exact hfirst d hd u hu

/-- The terms of a query from tokens have pairwise different folds, and these are the folds of what
the tokens ask to find. Each term is such a text as it is written, the first of its fold in the
order of the clauses, in which the terms stand as well; so no text is a term that is only a name, a
value without quotes, a comparison, a day, a direction, or excluded. -/
theorem terms_of_ofTokens (h : ofTokens ts = .ok q) :
    (q.terms.map Text.fold).Nodup ∧
    (∀ f, f ∈ q.terms.map Text.fold ↔ ∃ t ∈ ts, ∃ text, t.Seeks text ∧ Text.fold text = f) ∧
    (∀ text ∈ q.terms, (∃ t ∈ ts, t.Seeks text) ∧
      ∃ before c after, q.clauses = before ++ c :: after ∧ c.freeText? = some text ∧
        ∀ d ∈ before, ∀ u, d.freeText? = some u → Text.fold u ≠ Text.fold text) ∧
    q.terms.Sublist (q.clauses.filterMap Clause.freeText?) ∧
    ∀ text, (∀ t ∈ ts, ¬ t.Seeks text) → text ∉ q.terms := by
  have hsub : q.terms.Sublist (q.clauses.filterMap Clause.freeText?) :=
    terms_eq q ▸ firstsBy_sublist Text.fold _
  have hsought {text : Text} (ht : text ∈ q.terms) : ∃ t ∈ ts, t.Seeks text :=
    (mem_freeTexts_iff h).mp (hsub.subset ht)
  refine ⟨?_, fun f => ?_, fun text ht => ⟨hsought ht, mem_terms_iff.mp ht⟩, hsub,
    fun text hnone ht => ?_⟩
  · rw [terms_eq]
    exact nodup_map_firstsBy Text.fold _
  · -- the folds of the kept terms are those of all free texts, repeated or not
    rw [terms_eq, mem_map_firstsBy_iff, List.mem_map]
    constructor
    · rintro ⟨text, htext, rfl⟩
      obtain ⟨t, ht, hseeks⟩ := (mem_freeTexts_iff h).mp htext
      exact ⟨t, ht, text, hseeks, rfl⟩
    · rintro ⟨t, ht, text, hseeks, rfl⟩
      exact ⟨text, (mem_freeTexts_iff h).mpr ⟨t, ht, hseeks⟩, rfl⟩
  · obtain ⟨t, hmem, hseeks⟩ := hsought ht
    exact hnone t hmem hseeks

/-- A field that stands first is asked for last; a word in an alternative is the same term as a
phrase after it, and what is excluded or has no quotes is none. -/
theorem terms_of_ofTokens_regrouped :
    let ts : List Token := [.field "title".toList "Go".toList true, .word "MASSE".toList,
      .connective .or, .field "content".toList "rust".toList false, .exclude (.word ['c']),
      .phrase "Maße".toList, .sort "date".toList "asc".toList]
    ∃ q, ofTokens ts = .ok q ∧ q.terms = ["MASSE".toList, "Go".toList] ∧
      (q.terms.map Text.fold).Nodup ∧ "Maße".toList ∉ q.terms ∧ "rust".toList ∉ q.terms ∧
      ∃ t ∈ ts, t.Seeks "Go".toList := by
  intro ts
  let q : Query := {
    required := [.or (.term ⟨"MASSE".toList, false⟩)
      (.field ⟨"content".toList, "rust".toList, false⟩), .term ⟨"Maße".toList, true⟩]
    excluded := [⟨['c'], false⟩]
    fields := [⟨"title".toList, "Go".toList, true⟩]
    sort := some ⟨"date".toList, "asc".toList⟩ }
  have hq : ofTokens ts = .ok q := rfl
  have hterms : q.terms = ["MASSE".toList, "Go".toList] := by decide +kernel
  obtain ⟨hnodup, -, hfirst, -, hnone⟩ := terms_of_ofTokens hq
  have hgo : "Go".toList ∈ q.terms := by simp [hterms]
  refine ⟨q, hq, hterms, hnodup, by simp [hterms], hnone _ fun t ht hseeks => ?_,
    (hfirst _ hgo).1⟩
  cases hseeks <;> simp [ts] at ht

end Query

end ArticleArchive
