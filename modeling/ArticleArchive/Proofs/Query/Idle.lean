import ArticleArchive.Proofs.Query.Chain
import ArticleArchive.Query.Matching

namespace ArticleArchive

/-- `AND` or a sort directive. -/
def Token.isIdle : Token → Bool
  | .connective .and | .sort _ _ => true
  | _ => false

namespace Chain

open Token (excludedTerm?)

variable {s s' u : Chain} {t : Token}

theorem push_or (h : s.before = .clause) :
    s.push (.connective .or) = .ok { s with pending := some .or, before := .connective } := by
  simp [push, pushConnective, h]

theorem push_exclusion {term : Term} (ht : excludedTerm? t = some term)
    (hp : s.pending ≠ some .or) :
    s.push t =
      .ok { s with excluded := term :: s.excluded, pending := none, before := .other } := by
  unfold excludedTerm? at ht
  split at ht
  · obtain rfl := Option.some.inj ht
    simp [push, pushExclusion, hp]
  · obtain rfl := Option.some.inj ht
    simp [push, pushExclusion, hp]
  · simp at ht

theorem push_of_ofToken? {c : Clause} (ht : Clause.ofToken? t = some c) :
    s.push t = s.pushClause c := by
  cases t with
  | sort | connective | exclude | unknown => simp [Clause.ofToken?] at ht
  | _ =>
    obtain rfl := Option.some.inj ht
    simp [push, Token.isClause, Clause.ofToken?]

theorem pushClause_single {c : Clause} (hp : s.pending ≠ some .or) :
    s.pushClause c =
      .ok { s with clauses := c :: s.clauses, pending := none, before := .clause } := by
  unfold pushClause
  split
  · rename_i h
    exact absurd h hp
  · rfl

theorem pushClause_joined {c d : Clause} {ds : List Clause} (hp : s.pending = some .or)
    (hd : s.clauses = d :: ds) :
    s.pushClause c =
      .ok { s with clauses := .or d c :: ds, pending := none, before := .clause } := by
  simp [pushClause, hp, hd]

/-- `s'` has read the same tokens as `s` except for the idle ones. -/
structure Shadows (s s' : Chain) : Prop where
  clauses : s'.clauses = s.clauses
  excluded : s'.excluded = s.excluded
  sort : s'.sort = none
  pending : s'.pending = some .or ↔ s.pending = some .or
  noAnd : s'.pending ≠ some .and
  before : s.before = .clause → s'.before = .clause
  waiting : s.pending ≠ none → s.before = .connective

theorem shadows_start : Shadows {} {} := by
  constructor <;> simp

theorem Shadows.pending_eq_none (hs : Shadows s s') (h : s.pending ≠ some .or) :
    s'.pending = none := by
  have hor : s'.pending ≠ some .or := fun he => h (hs.pending.mp he)
  have hand := hs.noAnd
  cases hp : s'.pending with
  | none => rfl
  | some c =>
    cases c with
    | and => exact absurd hp hand
    | or => exact absurd hp hor

theorem Shadows.push_idle (hs : Shadows s s') (ht : t.isIdle = true) (h : s.push t = .ok u) :
    Shadows u s' := by
  rcases push_eq_ok h with ⟨c, rfl, -, hb, -, rfl⟩ | ⟨hp, ⟨key, direction, rfl, -, rfl⟩ |
    ⟨term, hterm, rfl⟩⟩ | ⟨c, hc, -⟩
  · obtain rfl : c = .and := by
      cases c with
      | and => rfl
      | or => simp [Token.isIdle] at ht
    -- nothing waits where a connective is accepted
    have hnone : s.pending = none := by
      by_contra hp
      exact hb (hs.waiting hp)
    have hnone' := hs.pending_eq_none (by simp [hnone])
    exact ⟨hs.clauses, hs.excluded, hs.sort, by simp [hnone'], hs.noAnd, nofun, fun _ => rfl⟩
  · have hnone := hs.pending_eq_none hp
    exact ⟨hs.clauses, hs.excluded, hs.sort, by simp [hnone], hs.noAnd, nofun, by simp⟩
  · unfold excludedTerm? at hterm
    split at hterm <;> simp [Token.isIdle] at ht hterm
  · cases t <;> simp [Token.isIdle, Clause.ofToken?] at ht hc

theorem Shadows.push (hs : Shadows s s') (ht : t.isIdle = false) (h : s.push t = .ok u) :
    ∃ u', s'.push t = .ok u' ∧ Shadows u u' := by
  rcases push_eq_ok h with ⟨c, rfl, -, -, hb, rfl⟩ | ⟨hp, ⟨key, direction, rfl, -, rfl⟩ |
    ⟨term, hterm, rfl⟩⟩ | ⟨c, hc, ⟨hp, rfl⟩ | ⟨hp, d, ds, hd, rfl⟩⟩
  · obtain rfl : c = .or := by
      cases c with
      | and => simp [Token.isIdle] at ht
      | or => rfl
    refine ⟨_, push_or (hs.before (hb rfl)), ?_⟩
    exact ⟨hs.clauses, hs.excluded, hs.sort, by simp, by simp, nofun, fun _ => rfl⟩
  · simp [Token.isIdle] at ht
  · refine ⟨_, push_exclusion hterm (by simp [hs.pending_eq_none hp]), ?_⟩
    exact ⟨hs.clauses, by simp [hs.excluded], hs.sort, by simp, by simp, nofun, by simp⟩
  · refine ⟨_, (push_of_ofToken? hc).trans (pushClause_single ?_), ?_⟩
    · simp [hs.pending_eq_none hp]
    · exact ⟨by simp [hs.clauses], hs.excluded, hs.sort, by simp, by simp, fun _ => rfl, by simp⟩
  · have hd' : s'.clauses = d :: ds := hs.clauses.trans hd
    refine ⟨_, (push_of_ofToken? hc).trans (pushClause_joined (hs.pending.mpr hp) hd'), ?_⟩
    exact ⟨rfl, hs.excluded, hs.sort, by simp, by simp, fun _ => rfl, by simp⟩

theorem Shadows.foldlM_push {ts : List Token} (hs : Shadows s s')
    (h : ts.foldlM Chain.push s = .ok u) :
    ∃ u', (ts.filter fun t => !t.isIdle).foldlM Chain.push s' = .ok u' ∧ Shadows u u' := by
  induction ts generalizing s s' with
  | nil =>
    obtain rfl := Except.ok.inj h
    exact ⟨s', rfl, hs⟩
  | cons t ts ih =>
    rw [List.foldlM_cons] at h
    obtain ⟨s₁, h₁, h₂⟩ := bind_eq_ok_iff.mp h
    by_cases ht : t.isIdle = true
    · obtain ⟨u', hu', hsu⟩ := ih (hs.push_idle ht h₁) h₂
      exact ⟨u', by simpa [ht] using hu', hsu⟩
    · have ht : t.isIdle = false := by simpa using ht
      obtain ⟨s₁', h₁', hs₁⟩ := hs.push ht h₁
      obtain ⟨u', hu', hsu⟩ := ih hs₁ h₂
      refine ⟨u', ?_, hsu⟩
      rw [List.filter_cons_of_pos (by simp [ht]), List.foldlM_cons]
      exact bind_eq_ok_iff.mpr ⟨s₁', h₁', hu'⟩

theorem ofTokens_filter_idle {ts : List Token} (h : ofTokens ts = .ok s) :
    ∃ s', ofTokens (ts.filter fun t => !t.isIdle) = .ok s' ∧ s'.clauses = s.clauses ∧
      s'.excluded = s.excluded ∧ s'.sort = none := by
  obtain ⟨s₁, h₁, h₂⟩ := bind_eq_ok_iff.mp h
  obtain ⟨s', hs', hsh⟩ := shadows_start.foldlM_push h₁
  unfold finish at h₂
  split at h₂
  · simp at h₂
  · rename_i hp
    obtain rfl := Except.ok.inj h₂
    have hnone := hsh.pending_eq_none (by simp [hp])
    refine ⟨s', bind_eq_ok_iff.mpr ⟨s', hs', ?_⟩, hsh.clauses, hsh.excluded, hsh.sort⟩
    simp [finish, hnone]

end Chain

namespace Query

theorem addClause_sort {q q' : Query} {c : Clause} (h : q.addClause c = .ok q')
    (sort : Option SortSpec) :
    { q with sort }.addClause c = .ok { q' with sort } := by
  cases c with
  | term t =>
    obtain rfl := Except.ok.inj h
    rfl
  | or l r =>
    obtain rfl := Except.ok.inj h
    rfl
  | field f =>
    simp only [addClause] at h ⊢
    split at h
    · simp at h
    · rename_i hf
      obtain rfl := Except.ok.inj h
      rw [if_neg hf]
  | dates low high =>
    obtain ⟨f, hf, rfl⟩ := map_eq_ok_iff.mp h
    exact map_eq_ok_iff.mpr ⟨f, hf, rfl⟩
  | range r =>
    simp only [addClause] at h ⊢
    split at h
    · obtain ⟨f, hf, rfl⟩ := map_eq_ok_iff.mp h
      exact map_eq_ok_iff.mpr ⟨f, hf, rfl⟩
    · obtain rfl := Except.ok.inj h
      rfl

theorem foldlM_addClause_sort {q q' : Query} {cs : List Clause}
    (h : cs.foldlM addClause q = .ok q') (sort : Option SortSpec) :
    cs.foldlM addClause { q with sort } = .ok { q' with sort } := by
  induction cs generalizing q with
  | nil =>
    obtain rfl := Except.ok.inj h
    rfl
  | cons c cs ih =>
    rw [List.foldlM_cons] at h ⊢
    obtain ⟨q₁, h₁, h₂⟩ := bind_eq_ok_iff.mp h
    exact bind_eq_ok_iff.mpr ⟨_, addClause_sort h₁ sort, ih h₂⟩

/-- Idle tokens can be left out of an accepted query; only the order of its results is lost. -/
theorem ofTokens_filter_idle {ts : List Token} {q : Query} (h : ofTokens ts = .ok q) :
    ofTokens (ts.filter fun t => !t.isIdle) = .ok { q with sort := none } := by
  obtain ⟨s, hs, h⟩ := bind_eq_ok_iff.mp h
  obtain ⟨s', hs', hc, hx, hsort⟩ := Chain.ofTokens_filter_idle hs
  have hq := foldlM_addClause_sort (mapError_eq_ok_iff.mp h) none
  refine bind_eq_ok_iff.mpr ⟨s', hs', mapError_eq_ok_iff.mpr ?_⟩
  rw [hc, hx, hsort]
  exact hq

theorem execute_sort (q : Query) (sort : Option SortSpec) (corpus : List Article) :
    Query.execute { q with sort } corpus = q.execute corpus := by
  induction corpus with
  | nil => rfl
  | cons a as ih =>
    rw [execute, execute, ih]
    rfl

end Query

end ArticleArchive
