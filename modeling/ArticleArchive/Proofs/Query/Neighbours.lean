import Mathlib.Data.List.Chain
import Mathlib.Tactic.MkIffOfInductiveProp
import ArticleArchive.Proofs.Query.Idle

namespace ArticleArchive

namespace Token

def isConnective : Token → Bool
  | .connective _ => true
  | _ => false

def isSort : Token → Bool
  | .sort _ _ => true
  | _ => false

def isFreeText : Token → Bool
  | .word _ | .phrase _ => true
  | _ => false

/-- Neighbours of which neither is an `OR` next to something that is no clause. -/
def OrJoins (t u : Token) : Prop :=
  (t = .connective .or → u.isClause = true) ∧ (u = .connective .or → t.isClause = true)

/-- Tokens that a chain accepts, a connective perhaps at their end. -/
@[mk_iff]
structure Joined (ts : List Token) : Prop where
  first : ∀ t ∈ ts.head?, t.isConnective = false
  apart : ts.IsChain fun t u => ¬ (t.isConnective = true ∧ u.isConnective = true)
  joins : ts.IsChain OrJoins
  sorts : ts.countP isSort ≤ 1
  exclusions : ∀ t, .exclude t ∈ ts → t.isFreeText = true

/-- Tokens that a chain accepts, and at the end of which none is awaited. -/
@[mk_iff complete_iff]
structure Complete (ts : List Token) : Prop extends Joined ts where
  last : ∀ t ∈ ts.getLast?, t.isConnective = false

/-- What makes a token fit behind others. -/
structure Fits (ts : List Token) (t : Token) : Prop where
  connective : t.isConnective = true → ∃ u ∈ ts.getLast?, u.isConnective = false
  or : t = .connective .or → ∃ u ∈ ts.getLast?, u.isClause = true
  joined : ts.getLast? = some (.connective .or) → t.isClause = true
  sort : t.isSort = true → ∀ u ∈ ts, u.isSort = false
  exclusion : ∀ k, t = .exclude k → k.isFreeText = true

variable {ts : List Token} {t : Token}

theorem Joined.of_concat (h : Joined (ts ++ [t])) : Joined ts where
  first u hu := h.first u (by rw [List.head?_append, hu]; rfl)
  apart := h.apart.left_of_append
  joins := h.joins.left_of_append
  sorts := by
    have := h.sorts
    rw [List.countP_append] at this
    omega
  exclusions u hu := h.exclusions u (List.mem_append_left _ hu)

theorem Joined.fits (h : Joined (ts ++ [t])) : Fits ts t := by
  have hapart := (List.isChain_append.mp h.apart).2.2
  have hjoins := (List.isChain_append.mp h.joins).2.2
  have hlast (hc : t.isConnective = true) : ∃ u, ts.getLast? = some u := by
    cases hl : ts.getLast? with
    | some u => exact ⟨u, rfl⟩
    | none =>
      obtain rfl := List.getLast?_eq_none_iff.mp hl
      simp [h.first t rfl] at hc
  refine ⟨fun hc => ?_, fun hor => ?_, fun hor => ?_, fun hs u hu => ?_, fun k hk => ?_⟩
  · obtain ⟨u, hu⟩ := hlast hc
    exact ⟨u, hu, by simpa [hc] using hapart u hu t rfl⟩
  · obtain ⟨u, hu⟩ := hlast (hor ▸ rfl)
    exact ⟨u, hu, (hjoins u hu t rfl).2 hor⟩
  · exact (hjoins _ hor t rfl).1 rfl
  · have hcount := h.sorts
    rw [List.countP_append, List.countP_singleton, if_pos hs] at hcount
    have hzero : ts.countP isSort = 0 := by omega
    simpa using List.countP_eq_zero.mp hzero u hu
  · exact h.exclusions k (by simp [hk])

theorem Joined.concat (h : Joined ts) (ht : Fits ts t) : Joined (ts ++ [t]) where
  first u hu := by
    cases ts with
    | nil =>
      obtain rfl : t = u := by simpa using hu
      apply Bool.eq_false_iff.mpr
      intro hc
      obtain ⟨v, hv, -⟩ := ht.connective hc
      simp at hv
    | cons v ts => exact h.first u hu
  apart := by
    refine List.isChain_append.mpr ⟨h.apart, List.isChain_singleton t, fun u hu v hv => ?_⟩
    obtain rfl : t = v := by simpa using hv
    rintro ⟨huc, htc⟩
    obtain ⟨w, hw, hwc⟩ := ht.connective htc
    obtain rfl := Option.mem_unique hu hw
    simp [huc] at hwc
  joins := by
    refine List.isChain_append.mpr ⟨h.joins, List.isChain_singleton t, fun u hu v hv => ?_⟩
    obtain rfl : t = v := by simpa using hv
    refine ⟨fun hor => ht.joined (hor ▸ hu), fun hor => ?_⟩
    obtain ⟨w, hw, hwc⟩ := ht.or hor
    rwa [Option.mem_unique hu hw]
  sorts := by
    rw [List.countP_append, List.countP_singleton]
    split
    · rename_i hs
      have hzero : ts.countP isSort = 0 :=
        List.countP_eq_zero.mpr fun u hu => by simp [ht.sort hs u hu]
      omega
    · exact h.sorts
  exclusions u hu := by
    rcases List.mem_append.mp hu with hu | hu
    · exact h.exclusions u hu
    · exact ht.exclusion u (List.mem_singleton.mp hu).symm

theorem joined_concat_iff : Joined (ts ++ [t]) ↔ Joined ts ∧ Fits ts t :=
  ⟨fun h => ⟨h.of_concat, h.fits⟩, fun h => h.1.concat h.2⟩

theorem joined_nil : Joined [] := by
  constructor <;> simp

end Token

namespace Chain

open Token (Joined Complete Fits pending? neighbour)

variable {ts : List Token} {s : Chain} {t : Token}

theorem pending?_eq_some_iff {c : Connective} :
    pending? ts = some c ↔ ts.getLast? = some (.connective c) := by
  unfold pending?
  split
  · rename_i d hd
    simp [hd]
  · rename_i hno
    exact iff_of_false nofun fun h => hno c h

theorem neighbour_cases (ts : List Token) :
    (ts.getLast? = none ∧ neighbour ts = .none) ∨
      ∃ u, ts.getLast? = some u ∧
        (neighbour ts = .connective ↔ u.isConnective = true) ∧
        (neighbour ts = .clause ↔ u.isClause = true) ∧ neighbour ts ≠ .none := by
  unfold neighbour
  cases h : ts.getLast? with
  | none => exact .inl ⟨rfl, rfl⟩
  | some u => cases u <;> simp [Token.isConnective, Token.isClause]

theorem Follows.sort_eq_none_iff (hf : Follows ts s) :
    s.sort = none ↔ ∀ u ∈ ts, u.isSort = false := by
  rw [hf.sort, List.findSome?_eq_none_iff]
  refine forall₂_congr fun u _ => ?_
  cases u <;> simp [Token.sortSpec?, Token.isSort]

theorem Follows.exists_pushClause (hf : Follows ts s) (c : Clause) :
    ∃ s', s.pushClause c = .ok s' := by
  by_cases hp : s.pending = some .or
  · obtain ⟨d, ds, hd⟩ := List.exists_cons_of_ne_nil (hf.clauses_ne_nil hp)
    exact ⟨_, pushClause_joined hp hd⟩
  · exact ⟨_, pushClause_single hp⟩

theorem Follows.exists_pushConnective_iff (hf : Follows ts s) (c : Connective) :
    (∃ s', s.push (.connective c) = .ok s') ↔ Fits ts (.connective c) := by
  have hbefore := hf.before
  simp only [Chain.push, pushConnective, exists_ite_error_iff, not_or, not_and, Decidable.not_not]
  constructor
  · rintro ⟨hsome, hapart, hjoins⟩
    rcases neighbour_cases ts with ⟨-, hn⟩ | ⟨u, hu, hconnective, hclause, -⟩
    · exact absurd (hbefore.trans hn) hsome
    · rw [← hbefore] at hconnective hclause
      refine ⟨fun _ => ⟨u, hu, ?_⟩, fun hor => ⟨u, hu, ?_⟩, fun hor => ?_, by simp [Token.isSort],
        by simp⟩
      · simpa using mt hconnective.mpr hapart
      · exact hclause.mp (hjoins (by simpa using hor))
      · exact absurd (hconnective.mpr (Option.some.inj (hu.symm.trans hor) ▸ rfl)) hapart
  · intro h
    obtain ⟨u, hu, hc⟩ := h.connective rfl
    rcases neighbour_cases ts with ⟨hl, -⟩ | ⟨v, hv, hconnective, hclause, hsome⟩
    · simp [hl] at hu
    · obtain rfl := Option.mem_unique hu hv
      rw [← hbefore] at hconnective hclause hsome
      refine ⟨hsome, fun hb => ?_, fun hor => ?_⟩
      · simp [hconnective.mp hb] at hc
      · obtain ⟨w, hw, hwc⟩ := h.or (by rw [hor])
        obtain rfl := Option.mem_unique hu hw
        exact hclause.mpr hwc

theorem Follows.exists_push_iff (hf : Follows ts s) (ht : t ≠ .unknown) :
    (∃ s', s.push t = .ok s') ↔ Fits ts t := by
  have hor : s.pending = some .or ↔ ts.getLast? = some (.connective .or) := by
    rw [hf.pending, pending?_eq_some_iff]
  cases t with
  | connective c => exact hf.exists_pushConnective_iff c
  | sort key direction =>
    have hsort := hf.sort_eq_none_iff
    simp only [Chain.push, pushSort, Token.isClause, and_true]
    constructor
    · rintro ⟨s', hs'⟩
      split at hs'
      · simp at hs'
      · rename_i hp
        split at hs'
        · simp at hs'
        · rename_i hs
          exact ⟨by simp [Token.isConnective], by simp, fun h => absurd (hor.mpr h) hp,
            fun _ => hsort.mp (by simpa using hs), by simp⟩
    · intro h
      rw [if_neg fun hp => by simpa [Token.isClause] using h.joined (hor.mp hp),
        if_neg (by simpa using hsort.mpr (h.sort rfl))]
      exact ⟨_, rfl⟩
  | exclude k =>
    simp only [Chain.push, Token.isClause, and_true]
    constructor
    · rintro ⟨s', hs'⟩
      split at hs'
      · simp at hs'
      · rename_i hp
        refine ⟨by simp [Token.isConnective], by simp, fun h => absurd (hor.mpr h) hp,
          by simp [Token.isSort], fun k' hk => ?_⟩
        obtain rfl : k = k' := by simpa using hk
        unfold pushExclusion at hs'
        split at hs'
        · rfl
        · rfl
        · simp at hs'
    · intro h
      have hk := h.exclusion k rfl
      rw [if_neg fun hp => by simpa [Token.isClause] using h.joined (hor.mp hp)]
      cases k with
      | word | phrase => exact ⟨_, rfl⟩
      | _ => simp [Token.isFreeText] at hk
  | unknown => exact absurd rfl ht
  -- a clause fits behind anything
  | _ =>
    refine iff_of_true ?_ ⟨by simp [Token.isConnective], by simp, fun _ => rfl,
      by simp [Token.isSort], by simp⟩
    rw [push_of_ofToken? rfl]
    exact hf.exists_pushClause _

/-- Tokens build a chain if and only if each of them fits behind those before it. -/
theorem exists_foldlM_push_iff (h : .unknown ∉ ts) :
    (∃ s, ts.foldlM push {} = .ok s) ↔ Joined ts := by
  induction ts using List.reverseRecOn with
  | nil => exact iff_of_true ⟨{}, rfl⟩ Token.joined_nil
  | append_singleton ts t ih =>
    obtain ⟨hts, ht⟩ : .unknown ∉ ts ∧ .unknown ≠ t := by simpa using h
    have hsingle (s : Chain) : [t].foldlM push s = s.push t := by simp
    rw [Token.joined_concat_iff, ← ih hts, List.foldlM_append]
    constructor
    · rintro ⟨s', hs'⟩
      obtain ⟨s, hs, hpush⟩ := bind_eq_ok_iff.mp hs'
      have hf : Follows ts s := follows_nil.foldlM_push hs
      exact ⟨⟨s, hs⟩, (hf.exists_push_iff ht.symm).mp ⟨s', hsingle s ▸ hpush⟩⟩
    · rintro ⟨⟨s, hs⟩, hfits⟩
      have hf : Follows ts s := follows_nil.foldlM_push hs
      obtain ⟨s', hs'⟩ := (hf.exists_push_iff ht.symm).mpr hfits
      exact ⟨s', bind_eq_ok_iff.mpr ⟨s, hs, (hsingle s).trans hs'⟩⟩

theorem exists_ofTokens_iff (h : .unknown ∉ ts) :
    (∃ s, ofTokens ts = .ok s) ↔ Complete ts := by
  have hlast : pending? ts = none ↔ ∀ t ∈ ts.getLast?, t.isConnective = false := by
    unfold pending?
    cases hl : ts.getLast? with
    | none => simp
    | some t => cases t <;> simp [Token.isConnective]
  rw [Token.complete_iff, ← exists_foldlM_push_iff h, ← hlast]
  constructor
  · rintro ⟨s, hs⟩
    obtain ⟨s₁, h₁, h₂⟩ := bind_eq_ok_iff.mp hs
    have hf : Follows ts s₁ := follows_nil.foldlM_push h₁
    exact ⟨⟨s₁, h₁⟩, hf.pending ▸ (finish_eq_ok_iff.mp h₂).1⟩
  · rintro ⟨⟨s, hs⟩, hp⟩
    have hf : Follows ts s := follows_nil.foldlM_push hs
    exact ⟨s, bind_eq_ok_iff.mpr ⟨s, hs, finish_eq_ok_iff.mpr ⟨hf.pending.trans hp, rfl⟩⟩⟩

end Chain

end ArticleArchive
