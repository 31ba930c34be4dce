import Mathlib.Data.List.Basic
import ArticleArchive.Query.Basic

namespace ArticleArchive.Token

/-- Whether tokens begin with `OR` and a clause, so that a clause before them is joined to it. -/
def joinsNext : List Token → Bool
  | .connective .or :: ts => ts.head?.any isClause
  | _ => false

def consRun (t : Token) : List (List Token) → List (List Token)
  | [] => [[t]]
  | r :: rs => (t :: r) :: rs

/-- The clause tokens in runs joined by `OR`; all other tokens only end runs. -/
def orRuns : List Token → List (List Token)
  | [] => []
  | t :: ts =>
    if t.isClause then
      if joinsNext ts then consRun t (orRuns ts) else [t] :: orRuns ts
    else orRuns ts

/-- Whether tokens end with a clause and `OR`, so that a clause after them is joined to it. -/
def EndsJoined (ts : List Token) : Prop :=
  ∃ us u, ts = us ++ [u, .connective .or] ∧ u.isClause = true

/-- A run of clauses as it stands among the tokens. -/
def joined : List Token → List Token
  | [] => []
  | [t] => [t]
  | t :: u :: ts => t :: .connective .or :: joined (u :: ts)

/-- A run of clauses joined by `OR` that cannot be made longer at either end. -/
def IsOrRun (ts run : List Token) : Prop :=
  run ≠ [] ∧ (∀ t ∈ run, t.isClause = true) ∧
    ∃ before after, ts = before ++ (joined run ++ after) ∧ ¬ EndsJoined before ∧
      joinsNext after = false

theorem joinsNext_of_isClause {t : Token} (ht : t.isClause = true) (ts : List Token) :
    joinsNext (t :: ts) = false := by
  cases t <;> first | rfl | simp [isClause] at ht

theorem joinsNext_cons_cons (x y : Token) (ts us : List Token) :
    joinsNext (x :: y :: ts) = joinsNext (x :: y :: us) := by
  cases x with
  | connective c => cases c <;> rfl
  | _ => rfl

theorem endsJoined_cons {t : Token} {ts : List Token} (h : EndsJoined ts) :
    EndsJoined (t :: ts) := by
  obtain ⟨us, u, rfl, hu⟩ := h
  exact ⟨t :: us, u, rfl, hu⟩

theorem orRuns_of_not_isClause {t : Token} (ht : t.isClause = false) (ts : List Token) :
    orRuns (t :: ts) = orRuns ts := by
  simp [orRuns, ht]

theorem orRuns_single {t : Token} (ht : t.isClause = true) {ts : List Token}
    (hj : joinsNext ts = false) : orRuns (t :: ts) = [t] :: orRuns ts := by
  simp [orRuns, ht, hj]

theorem exists_orRuns_cons {t : Token} (ht : t.isClause = true) (ts : List Token) :
    ∃ r rs, orRuns (t :: ts) = (t :: r) :: rs := by
  rw [orRuns, if_pos ht]
  split
  · cases orRuns ts with
    | nil => exact ⟨[], [], rfl⟩
    | cons r rs => exact ⟨r, rs, rfl⟩
  · exact ⟨[], _, rfl⟩

theorem orRuns_joined {t u : Token} (ht : t.isClause = true) (hu : u.isClause = true)
    (ts : List Token) :
    orRuns (t :: .connective .or :: u :: ts) = consRun t (orRuns (u :: ts)) := by
  have hj : joinsNext (.connective .or :: u :: ts) = true := hu
  rw [orRuns, if_pos ht, if_pos hj, orRuns_of_not_isClause rfl]

theorem exists_of_joinsNext {ts : List Token} (h : joinsNext ts = true) :
    ∃ u us, ts = .connective .or :: u :: us ∧ u.isClause = true := by
  unfold joinsNext at h
  split at h
  · rename_i us
    cases us with
    | nil => simp at h
    | cons u us => exact ⟨u, us, rfl, h⟩
  · simp at h

theorem joinsNext_append {t : Token} {ts us : List Token} (ht : t.isClause = true)
    (hj : EndsJoined (t :: ts) → ∀ u ∈ us.head?, u.isClause = false)
    (hn : joinsNext us = false) : joinsNext (ts ++ us) = joinsNext ts := by
  match ts with
  | [] => exact hn
  | [x] =>
    by_cases hx : x = .connective .or
    · subst hx
      have hu := hj ⟨[], t, rfl, ht⟩
      cases us with
      | nil => rfl
      | cons u us => exact hu u rfl
    · cases x with
      | connective c =>
        cases c with
        | and => rfl
        | or => exact absurd rfl hx
      | _ => rfl
  | x :: y :: ts => exact joinsNext_cons_cons x y _ _

/-- Lists keep their runs when they are put together, unless a run goes on from one to the
other. -/
theorem orRuns_append {ts us : List Token}
    (hj : EndsJoined ts → ∀ u ∈ us.head?, u.isClause = false) (hn : joinsNext us = false) :
    orRuns (ts ++ us) = orRuns ts ++ orRuns us := by
  induction ts with
  | nil => rfl
  | cons t ts ih =>
    have ih := ih fun h => hj (endsJoined_cons h)
    -- both sides look at the token after `t`, which is the same unless `ts` is empty
    rw [List.cons_append, orRuns, orRuns, ih]
    by_cases ht : t.isClause = true
    · rw [joinsNext_append ht hj hn, if_pos ht, if_pos ht]
      split
      · rename_i hts
        obtain ⟨u, vs, rfl, hu⟩ := exists_of_joinsNext hts
        obtain ⟨r, rs, hr⟩ := exists_orRuns_cons hu vs
        rw [orRuns_of_not_isClause rfl, hr]
        rfl
      · rfl
    · rw [if_neg ht, if_neg ht]

theorem orRuns_append_joined {ts : List Token} {t : Token} (hj : EndsJoined ts)
    (ht : t.isClause = true) :
    ∃ rs r, orRuns ts = rs ++ [r] ∧ r ≠ [] ∧ orRuns (ts ++ [t]) = rs ++ [r ++ [t]] := by
  obtain ⟨us, u, rfl, hu⟩ := hj
  -- the induction is on the tokens before the last clause; only the run of that clause grows
  induction us with
  | nil =>
    refine ⟨[], [u], ?_, List.cons_ne_nil _ _, ?_⟩
    · rw [List.nil_append, orRuns_single hu rfl]
      rfl
    · change orRuns [u, .connective .or, t] = [[u, t]]
      rw [orRuns_joined hu ht, orRuns_single ht rfl]
      rfl
  | cons x us ih =>
    obtain ⟨rs, r, h1, hr, h2⟩ := ih
    have hn : joinsNext (us ++ [u, .connective .or] ++ [t]) =
        joinsNext (us ++ [u, .connective .or]) := by
      match us with
      | [] => exact joinsNext_cons_cons _ _ _ _
      | [y] => exact joinsNext_cons_cons _ _ _ _
      | y :: z :: us => exact joinsNext_cons_cons _ _ _ _
    rw [List.cons_append, List.cons_append, orRuns, orRuns, hn, h1, h2]
    split
    · split
      · cases rs with
        | nil => exact ⟨[], x :: r, rfl, List.cons_ne_nil _ _, rfl⟩
        | cons s rs => exact ⟨(x :: s) :: rs, r, rfl, hr, rfl⟩
      · exact ⟨[x] :: rs, r, rfl, hr, rfl⟩
    · exact ⟨rs, r, rfl, hr, rfl⟩

theorem exists_joined_cons (t : Token) (run : List Token) :
    ∃ ts, joined (t :: run) = t :: ts := by
  cases run with
  | nil => exact ⟨_, rfl⟩
  | cons u run => exact ⟨_, rfl⟩

theorem joinsNext_joined_append {run : List Token} (hne : run ≠ [])
    (hc : ∀ t ∈ run, t.isClause = true) (after : List Token) :
    joinsNext (joined run ++ after) = false := by
  obtain ⟨t, run, rfl⟩ := List.exists_cons_of_ne_nil hne
  obtain ⟨ts, hts⟩ := exists_joined_cons t run
  rw [hts]
  exact joinsNext_of_isClause (hc t List.mem_cons_self) _

theorem orRuns_joined_append {run after : List Token} (hne : run ≠ [])
    (hc : ∀ t ∈ run, t.isClause = true) (ha : joinsNext after = false) :
    orRuns (joined run ++ after) = run :: orRuns after := by
  induction run with
  | nil => exact absurd rfl hne
  | cons t run ih =>
    have ht := hc t List.mem_cons_self
    cases run with
    | nil => exact orRuns_single ht ha
    | cons u run =>
      have ih := ih (List.cons_ne_nil _ _) fun v hv => hc v (List.mem_cons_of_mem _ hv)
      obtain ⟨vs, hvs⟩ := exists_joined_cons u run
      rw [joined, hvs]
      rw [hvs] at ih
      exact (orRuns_joined ht (hc u (by simp)) _).trans (congrArg (consRun t) ih)

theorem isClause_of_mem_orRuns {ts run : List Token} (h : run ∈ orRuns ts) :
    run ≠ [] ∧ ∀ t ∈ run, t.isClause = true ∧ t ∈ ts := by
  induction ts generalizing run with
  | nil => simp [orRuns] at h
  | cons t ts ih =>
    by_cases ht : t.isClause = true
    · rw [orRuns, if_pos ht] at h
      split at h
      · rename_i hj
        obtain ⟨u, us, rfl, hu⟩ := exists_of_joinsNext hj
        rw [orRuns_of_not_isClause rfl] at h ih
        obtain ⟨r, rs, hr⟩ := exists_orRuns_cons hu us
        rw [hr] at h ih
        rcases List.mem_cons.mp h with rfl | h
        · have := (ih List.mem_cons_self).2
          grind
        · have := ih (List.mem_cons_of_mem _ h)
          grind
      · rcases List.mem_cons.mp h with rfl | h
        · simpa using ht
        · have := ih h
          grind
    · rw [orRuns, if_neg ht] at h
      have := ih h
      grind

theorem exists_mem_consRun {run : List Token} {rs : List (List Token)} (h : run ∈ rs)
    (t : Token) : ∃ run' ∈ consRun t rs, ∀ u ∈ run, u ∈ run' := by
  cases rs with
  | nil => simp at h
  | cons r rs =>
    rcases List.mem_cons.mp h with rfl | h
    · exact ⟨t :: run, List.mem_cons_self, fun u hu => List.mem_cons_of_mem _ hu⟩
    · exact ⟨run, List.mem_cons_of_mem _ h, fun u hu => hu⟩

theorem exists_mem_orRuns {ts : List Token} {t : Token} (h : t ∈ ts) (ht : t.isClause = true) :
    ∃ run ∈ orRuns ts, t ∈ run := by
  induction ts with
  | nil => simp at h
  | cons u us ih =>
    rcases List.mem_cons.mp h with rfl | h
    · obtain ⟨r, rs, hr⟩ := exists_orRuns_cons ht us
      exact ⟨t :: r, by simp [hr], List.mem_cons_self⟩
    · obtain ⟨run, hrun, htr⟩ := ih h
      by_cases hu : u.isClause = true
      · rw [orRuns, if_pos hu]
        split
        · obtain ⟨run', hrun', hsub⟩ := exists_mem_consRun hrun u
          exact ⟨run', hrun', hsub t htr⟩
        · exact ⟨run, List.mem_cons_of_mem _ hrun, htr⟩
      · exact ⟨run, by rwa [orRuns, if_neg hu], htr⟩

theorem exists_of_orRuns_eq_cons {ts run : List Token} {rs : List (List Token)}
    (h : orRuns ts = run :: rs) :
    ∃ before after, ts = before ++ (joined run ++ after) ∧ (∀ t ∈ before, t.isClause = false) ∧
      joinsNext after = false ∧ orRuns after = rs := by
  induction ts generalizing run with
  | nil => simp [orRuns] at h
  | cons t ts ih =>
    by_cases ht : t.isClause = true
    · by_cases hj : joinsNext ts = true
      · obtain ⟨u, us, rfl, hu⟩ := exists_of_joinsNext hj
        obtain ⟨r, rest, hr⟩ := exists_orRuns_cons hu us
        rw [orRuns_joined ht hu, hr] at h
        obtain ⟨rfl, rfl⟩ := List.cons.inj h
        have hor : orRuns (.connective .or :: u :: us) = (u :: r) :: rest := by
          rw [orRuns_of_not_isClause rfl, hr]
        obtain ⟨before, after, hs, hb, ha, hrest⟩ := ih hor
        obtain ⟨vs, hvs⟩ := exists_joined_cons u r
        -- the clause after `OR` is in the run, so that only this `OR` stands before it
        have hbefore : before = [.connective .or] := by
          match before with
          | [] =>
            rw [hvs] at hs
            obtain ⟨rfl, -⟩ := List.cons.inj hs
            simp [isClause] at hu
          | [x] =>
            obtain ⟨rfl, -⟩ := List.cons.inj hs
            rfl
          | x :: y :: before =>
            obtain ⟨-, hs⟩ := List.cons.inj hs
            obtain ⟨rfl, -⟩ := List.cons.inj hs
            simp [hb u (by simp)] at hu
        rw [hbefore] at hs
        refine ⟨[], after, ?_, by simp, ha, hrest⟩
        rw [hs]
        rfl
      · have hj : joinsNext ts = false := by simpa using hj
        rw [orRuns_single ht hj] at h
        obtain ⟨rfl, rfl⟩ := List.cons.inj h
        exact ⟨[], ts, rfl, by simp, hj, rfl⟩
    · have ht : t.isClause = false := by simpa using ht
      rw [orRuns_of_not_isClause ht] at h
      obtain ⟨before, after, rfl, hb, ha, hrest⟩ := ih h
      exact ⟨t :: before, after, rfl, by simpa [ht] using hb, ha, hrest⟩

theorem not_endsJoined_of_not_isClause {ts : List Token} (h : ∀ t ∈ ts, t.isClause = false) :
    ¬ EndsJoined ts := by
  rintro ⟨us, u, rfl, hu⟩
  simp [h u (by simp)] at hu

theorem not_endsJoined_append {ts us : List Token} (hu : ¬ EndsJoined us)
    (ht : us = [] → ¬ EndsJoined ts) (hor : us ≠ [.connective .or]) : ¬ EndsJoined (ts ++ us) := by
  rintro ⟨vs, v, he, hv⟩
  rcases List.eq_nil_or_concat us with rfl | ⟨us, x, rfl⟩
  · exact ht rfl ⟨vs, v, by simpa using he, hv⟩
  · have hlast : ts ++ us ++ [x] = vs ++ [v] ++ [.connective .or] := by simpa using he
    obtain ⟨hinit, hx⟩ := List.append_inj' hlast rfl
    obtain rfl := List.singleton_inj.mp hx
    rcases List.eq_nil_or_concat us with rfl | ⟨us, y, rfl⟩
    · exact hor rfl
    · have hinit : ts ++ us ++ [y] = vs ++ [v] := by simpa using hinit
      obtain ⟨-, hy⟩ := List.append_inj' hinit rfl
      obtain rfl := List.singleton_inj.mp hy
      exact hu ⟨us, y, by simp, hv⟩

theorem exists_joined_snoc {run : List Token} (hne : run ≠ []) :
    ∃ ts, ∃ t ∈ run, joined run = ts ++ [t] := by
  induction run with
  | nil => exact absurd rfl hne
  | cons t run ih =>
    cases run with
    | nil => exact ⟨[], t, List.mem_cons_self, rfl⟩
    | cons u run =>
      obtain ⟨ts, v, hv, hj⟩ := ih (List.cons_ne_nil _ _)
      refine ⟨t :: .connective .or :: ts, v, List.mem_cons_of_mem _ hv, ?_⟩
      rw [joined, hj]
      rfl

theorem not_endsJoined_run {ts run between after : List Token} {t : Token} (hne : run ≠ [])
    (hc : ∀ t ∈ run, t.isClause = true) (hb : ¬ EndsJoined between) (ht : t.isClause = true)
    (hj : joinsNext (between ++ t :: after) = false) :
    ¬ EndsJoined (ts ++ joined run ++ between) := by
  refine not_endsJoined_append hb (fun _ => ?_) ?_
  · obtain ⟨vs, v, hv, hjoined⟩ := exists_joined_snoc hne
    rintro ⟨ws, w, he, -⟩
    have hlast : ts ++ vs ++ [v] = ws ++ [w] ++ [.connective .or] := by simpa [hjoined] using he
    obtain ⟨-, hor⟩ := List.append_inj' hlast rfl
    obtain rfl := List.singleton_inj.mp hor
    simpa [isClause] using hc _ hv
  · rintro rfl
    have : t.isClause = false := hj
    simp [ht] at this

theorem isOrRun_of_mem_orRuns {ts run : List Token} (h : run ∈ orRuns ts) : IsOrRun ts run := by
  obtain ⟨hne, hclauses⟩ := isClause_of_mem_orRuns h
  refine ⟨hne, fun t ht => (hclauses t ht).1, ?_⟩
  -- the induction is on the runs; all runs but the first one are those of the tokens after it
  induction hr : orRuns ts generalizing ts with
  | nil => simp [hr] at h
  | cons r rs ih =>
    have hfirst := isClause_of_mem_orRuns (hr ▸ List.mem_cons_self : r ∈ orRuns ts)
    obtain ⟨before, after, rfl, hb, ha, hrest⟩ := exists_of_orRuns_eq_cons hr
    rw [hr] at h
    rcases List.mem_cons.mp h with rfl | h
    · exact ⟨before, after, rfl, not_endsJoined_of_not_isClause hb, ha⟩
    · have hmem : run ∈ orRuns after := by rwa [hrest]
      obtain ⟨between, after, rfl, hb', ha'⟩ := ih hmem (isClause_of_mem_orRuns hmem).2 hrest
      obtain ⟨t, run, rfl⟩ := List.exists_cons_of_ne_nil hne
      obtain ⟨vs, hvs⟩ := exists_joined_cons t run
      have ht := (hclauses t List.mem_cons_self).1
      refine ⟨before ++ joined r ++ between, after, by simp, ?_, ha'⟩
      rw [hvs] at ha
      exact not_endsJoined_run hfirst.1 (fun u hu => (hfirst.2 u hu).1) hb' ht ha

theorem mem_orRuns_iff {ts run : List Token} : run ∈ orRuns ts ↔ IsOrRun ts run := by
  refine ⟨isOrRun_of_mem_orRuns, ?_⟩
  rintro ⟨hne, hc, before, after, rfl, hb, ha⟩
  rw [orRuns_append (fun h => absurd h hb) (joinsNext_joined_append hne hc after),
    orRuns_joined_append hne hc ha]
  simp

end ArticleArchive.Token
