import ArticleArchive.Proofs.Query.Collecting
import ArticleArchive.Proofs.Query.Tiling
import ArticleArchive.Query.Validity

namespace ArticleArchive

namespace Token

/-- One token of every run holds of the article, and no excluded word or phrase stands in it. -/
def Reads (ts : List Token) (a : Article) : Prop :=
  (∀ run, IsOrRun ts run → ∃ t ∈ run, t.Holds a) ∧
    ∀ text, .exclude (.word text) ∈ ts ∨ .exclude (.phrase text) ∈ ts → ¬ a.Mentions text

theorem exists_excludedTerm?_iff {ts : List Token} {text : Text} :
    (∃ term ∈ ts.filterMap excludedTerm?, term.text = text) ↔
      .exclude (.word text) ∈ ts ∨ .exclude (.phrase text) ∈ ts := by
  constructor
  · rintro ⟨term, hterm, rfl⟩
    obtain ⟨t, ht, he⟩ := List.mem_filterMap.mp hterm
    unfold excludedTerm? at he
    split at he
    · obtain rfl := Option.some.inj he
      exact .inl ht
    · obtain rfl := Option.some.inj he
      exact .inr ht
    · simp at he
  · rintro (h | h)
    · exact ⟨⟨text, false⟩, List.mem_filterMap.mpr ⟨_, h, rfl⟩, rfl⟩
    · exact ⟨⟨text, true⟩, List.mem_filterMap.mpr ⟨_, h, rfl⟩, rfl⟩

theorem reads_iff {ts : List Token} {a : Article} :
    Reads ts a ↔ (∀ run ∈ orRuns ts, ∃ t ∈ run, t.Holds a) ∧
      ∀ term ∈ ts.filterMap excludedTerm?, ¬ a.Mentions term.text := by
  simp only [Reads, mem_orRuns_iff, ← exists_excludedTerm?_iff]
  refine and_congr_right fun _ => ⟨fun h term ht => h _ ⟨term, ht, rfl⟩, ?_⟩
  rintro h text ⟨term, ht, rfl⟩
  exact h term ht

instance (ts : List Token) (a : Article) : Decidable (Reads ts a) :=
  decidable_of_iff _ reads_iff.symm

/-- Every comparison is by one of the five marks. -/
def MarksKnown (ts : List Token) : Prop :=
  ∀ name op value, .range name op value ∈ ts → op.isKnown = true

/-- Every number of views has as many digits as a numeral may have, or fewer. -/
def NumbersShort (ts : List Token) : Prop :=
  ∀ name op value, .range name op value ∈ ts → name ≠ dateField → value.length ≤ Text.maxDigits

theorem Spelled.isKnown {name value s : Text} {op : Comparison}
    (h : Spelled (.range name op value) s) : op.isKnown = true := by
  cases h with
  | comparison _ _ _ _ _ ho =>
    cases op with
    | other m => simp [Comparison.isInequality] at ho
    | _ => rfl
  | equality => rfl

end Token

theorem Lexeme.marksKnown_of_ofText {raw : Text} {ls : List Lexeme} (h : ofText raw = .ok ls) :
    Token.MarksKnown (ls.map (·.token)) := by
  intro name op value hm
  obtain ⟨l, hl, hk⟩ := List.mem_map.mp hm
  have hs := (ofText_tiles h).spelled_source (p := []) rfl rfl l hl
  rw [hk] at hs
  exact hs.isKnown

namespace Clause

variable {a : Article}

theorem holds_ofToken? {t : Token} {c : Clause} (h : ofToken? t = some c) :
    c.Holds a ↔ t.Holds a := by
  cases t with
  | range name op value =>
    obtain rfl := Option.some.inj h
    by_cases hn : name = dateField
    · simp [Holds, RangeClause.Holds, Quantity.ofName, Token.Holds, hn]
    · simp [Holds, RangeClause.Holds, Quantity.ofName, Token.Holds, hn]
  | sort | connective | exclude | unknown => simp [ofToken?] at h
  | _ =>
    obtain rfl := Option.some.inj h
    rfl

theorem leaves_ofToken? {t : Token} {c : Clause} (h : ofToken? t = some c) : c.leaves = [c] := by
  cases t with
  | sort | connective | exclude | unknown => simp [ofToken?] at h
  | _ =>
    obtain rfl := Option.some.inj h
    rfl

theorem exists_of_ofToken?_range {t : Token} {r : RangeClause} (h : ofToken? t = some (.range r)) :
    ∃ name, t = .range name r.op r.value ∧ Quantity.ofName name = r.quantity := by
  cases t with
  | range name op value =>
    obtain rfl := by simpa [ofToken?] using h
    exact ⟨name, rfl, rfl⟩
  | _ => simp [ofToken?] at h

theorem foldlM_or {ts : List Token} {c d : Clause}
    (h : ts.foldlM (fun c u => (ofToken? u).map (or c)) c = some d) :
    (∀ a, d.Holds a ↔ c.Holds a ∨ ∃ t ∈ ts, t.Holds a) ∧
      d.leaves = c.leaves ++ ts.filterMap ofToken? := by
  induction ts generalizing c with
  | nil =>
    obtain rfl := Option.some.inj h
    simp
  | cons t ts ih =>
    rw [List.foldlM_cons] at h
    obtain ⟨c', hc', h⟩ := Option.bind_eq_some_iff.mp h
    -- the next token is joined to what the tokens before it were joined to
    obtain ⟨u, hu, rfl⟩ := Option.map_eq_some_iff.mp hc'
    obtain ⟨hholds, hleaves⟩ := ih h
    constructor
    · intro a
      rw [hholds, Holds, holds_ofToken? hu, List.exists_mem_cons_iff, or_assoc]
    · rw [hleaves, leaves, leaves_ofToken? hu, List.filterMap_cons_some hu, List.append_assoc,
        List.singleton_append]

theorem holds_ofRun? {run : List Token} {c : Clause} (h : ofRun? run = some c) :
    c.Holds a ↔ ∃ t ∈ run, t.Holds a := by
  cases run with
  | nil => simp [ofRun?] at h
  | cons t ts =>
    obtain ⟨d, hd, h⟩ := Option.bind_eq_some_iff.mp h
    rw [(foldlM_or h).1, holds_ofToken? hd, List.exists_mem_cons_iff]

theorem leaves_ofRun? {run : List Token} {c : Clause} (h : ofRun? run = some c) :
    c.leaves = run.filterMap ofToken? := by
  cases run with
  | nil => simp [ofRun?] at h
  | cons t ts =>
    obtain ⟨d, hd, h⟩ := Option.bind_eq_some_iff.mp h
    rw [(foldlM_or h).2, leaves_ofToken? hd, List.filterMap_cons_some hd, List.singleton_append]

theorem exists_of_mem_leaves_ofRun? {run : List Token} {c e : Clause} (h : ofRun? run = some c)
    (he : e ∈ c.leaves) : ∃ t ∈ run, ofToken? t = some e := by
  rw [leaves_ofRun? h] at he
  exact List.mem_filterMap.mp he

end Clause

theorem Chain.Follows.mem_clauses_iff {ts : List Token} {s : Chain} (h : Follows ts s)
    {c : Clause} :
    c ∈ s.clauses.reverse ↔ ∃ run ∈ Token.orRuns ts, Clause.ofRun? run = some c := by
  rw [← List.mem_map, h.clauses]
  simp

theorem Chain.Follows.exists_clause {ts : List Token} {s : Chain} (h : Follows ts s)
    {run : List Token} (hr : run ∈ Token.orRuns ts) :
    ∃ c ∈ s.clauses.reverse, Clause.ofRun? run = some c := by
  have hm : Clause.ofRun? run ∈ s.clauses.reverse.map some := h.clauses ▸ List.mem_map_of_mem hr
  obtain ⟨c, hc, he⟩ := List.mem_map.mp hm
  exact ⟨c, hc, he.symm⟩

namespace Query

/-- `q` asks for what the tokens `ts` ask for, and its clauses come from these tokens. -/
structure MadeOf (ts : List Token) (q : Query) : Prop where
  holds : ∀ a, q.Holds a ↔ Token.Reads ts a
  clauses : ∀ d ∈ q.clauses, ∃ t ∈ ts, Clause.ofToken? t = some d

theorem holds_without_clauses (excluded : List Term) (sort : Option SortSpec) (a : Article) :
    Query.Holds { excluded, sort } a ↔ ∀ t ∈ excluded, ¬ a.Mentions t.text := by
  simp [Holds, DateFilter.Holds]

theorem ofTokens_madeOf {ts : List Token} {q : Query} (h : ofTokens ts = .ok q)
    (ho : Token.MarksKnown ts) : MadeOf ts q := by
  obtain ⟨s, hs, h⟩ := bind_eq_ok_iff.mp h
  have hf := Chain.ofTokens_follows hs
  -- each part of a clause comes from a token of its run
  have hleaf : ∀ c ∈ s.clauses.reverse, ∀ d ∈ c.leaves, ∃ t ∈ ts, Clause.ofToken? t = some d := by
    intro c hc d hd
    obtain ⟨run, hrun, hr⟩ := hf.mem_clauses_iff.mp hc
    obtain ⟨t, ht, he⟩ := Clause.exists_of_mem_leaves_ofRun? hr hd
    exact ⟨t, ((Token.isClause_of_mem_orRuns hrun).2 t ht).2, he⟩
  have hmarks : ∀ c ∈ s.clauses.reverse, ∀ r, c = .range r → r.op.isKnown = true := by
    rintro c hc r rfl
    obtain ⟨t, ht, he⟩ := hleaf _ hc (.range r) List.mem_cons_self
    obtain ⟨name, rfl, -⟩ := Clause.exists_of_ofToken?_range he
    exact ho name r.op r.value ht
  have hcollects := collects_of_foldlM (mapError_eq_ok_iff.mp h) hmarks
  constructor
  · intro a
    rw [hcollects.holds, holds_without_clauses, Token.reads_iff, hf.excluded, and_comm]
    refine and_congr_left fun _ => ⟨fun hall run hrun => ?_, fun hall c hc => ?_⟩
    · obtain ⟨c, hc, hr⟩ := hf.exists_clause hrun
      exact (Clause.holds_ofRun? hr).mp (hall c hc)
    · obtain ⟨run, hrun, hr⟩ := hf.mem_clauses_iff.mp hc
      exact (Clause.holds_ofRun? hr).mpr (hall run hrun)
  · intro d hd
    rcases hcollects.clauses d hd with hd | ⟨c, hc, hd⟩
    · simp [clauses] at hd
    · exact hleaf c hc d hd

theorem parse_eq_ok_iff {raw : Text} {q : Query} :
    parse raw = .ok q ↔
      ∃ ls, Lexeme.ofText raw = .ok ls ∧ ofTokens (ls.map (·.token)) = .ok q :=
  bind_eq_ok_iff

theorem compile_eq_ok_iff {raw : Text} {q : Query} :
    compile raw = .ok q ↔ parse raw = .ok q ∧ q.problems = [] := by
  constructor
  · intro h
    obtain ⟨q', hq, h⟩ := bind_eq_ok_iff.mp h
    split at h
    · rename_i hp
      obtain rfl := Except.ok.inj h
      exact ⟨hq, hp⟩
    · simp [throw, throwThe, MonadExceptOf.throw] at h
  · rintro ⟨hq, hp⟩
    refine bind_eq_ok_iff.mpr ⟨q, hq, ?_⟩
    rw [hp]
    rfl

theorem compile_of_ofText {raw : Text} {ls : List Lexeme} {q : Query}
    (hls : Lexeme.ofText raw = .ok ls) (hq : ofTokens (ls.map (·.token)) = .ok q)
    (hp : q.problems = []) : compile raw = .ok q :=
  compile_eq_ok_iff.mpr ⟨parse_eq_ok_iff.mpr ⟨ls, hls, hq⟩, hp⟩

namespace MadeOf

variable {ts : List Token} {q : Query}

theorem exists_range (h : MadeOf ts q) {r : RangeClause} (hr : .range r ∈ q.clauses) :
    ∃ name, .range name r.op r.value ∈ ts ∧ Quantity.ofName name = r.quantity := by
  obtain ⟨t, ht, he⟩ := h.clauses _ hr
  obtain ⟨name, rfl, hn⟩ := Clause.exists_of_ofToken?_range he
  exact ⟨name, ht, hn⟩

theorem sound (h : MadeOf ts q) (ho : Token.MarksKnown ts) (hp : q.problems = []) : q.Sound where
  problems := hp
  marks := by
    intro r hr
    obtain ⟨name, hm, -⟩ := h.exists_range hr
    exact ho name r.op r.value hm

theorem not_stuck (h : MadeOf ts q) (hn : Token.NumbersShort ts) (a : Article) : ¬ q.Stuck a := by
  intro hs
  obtain ⟨r, hr, hq, hlong⟩ := hs.exists_tooLong
  obtain ⟨name, hm, hname⟩ := h.exists_range hr
  have hne : name ≠ dateField := by
    rintro rfl
    simp [Quantity.ofName, hq] at hname
  have := hn name r.op r.value hm hne
  omega

end MadeOf

end Query

end ArticleArchive
