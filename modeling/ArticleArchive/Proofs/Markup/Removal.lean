import Mathlib.Data.List.Chain
import ArticleArchive.Markup

namespace ArticleArchive.Markup

variable {m : Markup} {before : Option Char} {t : Text}

/-- Of what a kind of markup finds, it keeps a part in its order, and not all. -/
def Deletes (m : Markup) : Prop :=
  ∀ before t n kept, m before t = some (n, kept) →
    ∃ found rest, t = found ++ rest ∧ n = found.length ∧ kept.Sublist found ∧
      kept.length < found.length

/-- A kind of markup is found somewhere in a text that stands after a character. -/
def OccursAfter (m : Markup) (before : Option Char) (t : Text) : Prop :=
  ∃ u v, t = u ++ v ∧ (m (u.getLast?.or before) v).isSome

/-- A kind of markup is found somewhere in a text. -/
def Occurs (m : Markup) (t : Text) : Prop :=
  ∃ u v, t = u ++ v ∧ (m u.getLast? v).isSome

theorem occurs_iff : m.Occurs t ↔ m.OccursAfter none t := by
  simp [Occurs, OccursAfter]

theorem getLast?_cons_or (c : Char) (u : Text) (before : Option Char) :
    (c :: u).getLast?.or before = u.getLast?.or (some c) := by
  rw [List.getLast?_cons]
  cases u.getLast? <;> rfl

theorem occursAfter_cons {c : Char} {cs : Text} :
    m.OccursAfter before (c :: cs) ↔
      (m before (c :: cs)).isSome ∨ m.OccursAfter (some c) cs := by
  constructor
  · rintro ⟨u, v, hparts, hfound⟩
    cases u with
    | nil => exact .inl (by simpa [hparts] using hfound)
    | cons d u =>
      obtain ⟨rfl, rfl⟩ := List.cons.inj hparts
      exact .inr ⟨u, v, rfl, by rwa [getLast?_cons_or] at hfound⟩
  · rintro (hfound | ⟨u, v, rfl, hfound⟩)
    · exact ⟨[], c :: cs, rfl, by simpa using hfound⟩
    · exact ⟨c :: u, v, rfl, by rwa [getLast?_cons_or]⟩

theorem Deletes.not_occursAfter_nil (hm : m.Deletes) : ¬ m.OccursAfter before [] := by
  rintro ⟨u, v, hparts, hfound⟩
  obtain ⟨rfl, rfl⟩ := List.append_eq_nil_iff.mp hparts.symm
  obtain ⟨⟨n, kept⟩, hfound⟩ := Option.isSome_iff_exists.mp hfound
  obtain ⟨found, rest, hnil, -, -, hshort⟩ := hm _ _ _ _ hfound
  rw [(List.append_eq_nil_iff.mp hnil.symm).1] at hshort
  exact Nat.not_lt_zero _ hshort

theorem removeFrom_sublist (hm : m.Deletes) (before : Option Char) (skip : Nat) (t : Text) :
    (m.removeFrom before skip t).Sublist (t.drop skip) := by
  fun_induction removeFrom m before skip t with
  | case1 => exact List.nil_sublist _
  | case2 before skip c cs ih => exact ih
  | case3 before c cs n kept hfound ih =>
    obtain ⟨found, rest, hparts, rfl, hkept, hshort⟩ := hm _ _ _ _ hfound
    obtain ⟨d, found, rfl⟩ := List.exists_cons_of_length_pos (Nat.zero_lt_of_lt hshort)
    obtain ⟨rfl, hrest⟩ := List.cons.inj hparts
    rw [List.length_cons, Nat.add_sub_cancel] at ih ⊢
    -- what is kept of the piece comes before what is left of the text behind it
    have hlater : cs.drop found.length = rest := by
      rw [hrest]
      exact List.drop_left
    rw [hlater] at ih
    exact hparts ▸ hkept.append ih
  | case4 before c cs hfound ih => exact ih.cons_cons c

theorem remove_sublist (hm : m.Deletes) (t : Text) : (m.remove t).Sublist t :=
  removeFrom_sublist hm none 0 t

theorem removeFrom_quiet {x v : Text}
    (h : ∀ u w, x = u ++ w → w ≠ [] → m (u.getLast?.or before) (w ++ v) = none) :
    m.removeFrom before 0 (x ++ v) = x ++ m.removeFrom (x.getLast?.or before) 0 v := by
  induction x generalizing before with
  | nil => rfl
  | cons c x ih =>
    have hhead : m before (c :: (x ++ v)) = none := h [] (c :: x) rfl (by simp)
    rw [List.cons_append, removeFrom, hhead, getLast?_cons_or]
    refine congrArg (c :: ·) (ih fun u w hparts hw => ?_)
    rw [← getLast?_cons_or]
    exact h (c :: u) w (by rw [hparts]; rfl) hw

theorem removeFrom_eq_self (h : ¬ m.OccursAfter before t) : m.removeFrom before 0 t = t := by
  have hquiet : m.removeFrom before 0 (t ++ []) = t ++ m.removeFrom (t.getLast?.or before) 0 [] :=
    removeFrom_quiet fun u w hparts _ => Option.not_isSome_iff_eq_none.mp fun hfound =>
      h ⟨u, w, hparts, by simpa using hfound⟩
  simpa [removeFrom] using hquiet

theorem length_removeFrom_lt (hm : m.Deletes) (h : m.OccursAfter before t) :
    (m.removeFrom before 0 t).length < t.length := by
  induction t generalizing before with
  | nil => exact absurd h hm.not_occursAfter_nil
  | cons c cs ih =>
    rw [removeFrom]
    split
    · rename_i n kept hfound
      have hlen := (removeFrom_sublist hm (some c) (n - 1) cs).length_le
      obtain ⟨found, rest, hparts, rfl, -, hshort⟩ := hm _ _ _ _ hfound
      have hall := congrArg List.length hparts
      rw [List.length_drop] at hlen
      rw [List.length_append] at hall ⊢
      rw [List.length_cons] at hall ⊢
      omega
    · rename_i hfound
      rw [occursAfter_cons, hfound] at h
      exact Nat.succ_lt_succ (ih (by simpa using h))

theorem remove_eq_self (h : ¬ m.Occurs t) : m.remove t = t :=
  removeFrom_eq_self (mt occurs_iff.mpr h)

theorem length_remove_lt (hm : m.Deletes) (h : m.Occurs t) : (m.remove t).length < t.length :=
  length_removeFrom_lt hm (occurs_iff.mp h)

variable {x y v : Text}

theorem removeFrom_skip (u v : Text) :
    m.removeFrom before u.length (u ++ v) = m.removeFrom (u.getLast?.or before) 0 v := by
  induction u generalizing before with
  | nil => rfl
  | cons c u ih => rw [List.cons_append, List.length_cons, removeFrom, ih, getLast?_cons_or]

theorem removeFrom_found (hx : x ≠ []) (h : m before (x ++ v) = some (x.length, y)) :
    m.removeFrom before 0 (x ++ v) = y ++ m.removeFrom (x.getLast?.or before) 0 v := by
  obtain ⟨c, x, rfl⟩ := List.exists_cons_of_ne_nil hx
  rw [List.cons_append] at h ⊢
  rw [removeFrom, h]
  dsimp only
  rw [List.length_cons, Nat.add_sub_cancel, removeFrom_skip, getLast?_cons_or]

/-- A kind of markup that always starts with the character. -/
def StartsWith (m : Markup) (o : Char) : Prop :=
  ∀ before t found, m before t = some found → t.head? = some o

theorem removeFrom_of_notMem {o : Char} (hm : m.StartsWith o) (hx : o ∉ x) :
    m.removeFrom before 0 (x ++ v) = x ++ m.removeFrom (x.getLast?.or before) 0 v := by
  refine removeFrom_quiet fun u w hparts hw => Option.eq_none_iff_forall_ne_some.mpr ?_
  intro found hfound
  obtain ⟨c, w, rfl⟩ := List.exists_cons_of_ne_nil hw
  obtain rfl : c = o := by simpa using hm _ _ _ hfound
  exact hx (hparts ▸ by simp)

theorem StartsWith.not_occurs {o : Char} (hm : m.StartsWith o) (ho : o ∉ t) : ¬ m.Occurs t := by
  rintro ⟨u, v, rfl, hfound⟩
  obtain ⟨found, hfound⟩ := Option.isSome_iff_exists.mp hfound
  exact ho (List.mem_append_right u (List.mem_of_mem_head? (hm _ _ _ hfound)))

def StartsWithPair (m : Markup) (o o' : Char) : Prop :=
  ∀ before t found, m before t = some found → ∃ rest, t = o :: o' :: rest

theorem StartsWithPair.not_occurs {o o' : Char} (hm : m.StartsWithPair o o') (ho : o' ∉ t) :
    ¬ m.Occurs t := by
  rintro ⟨u, v, rfl, hfound⟩
  obtain ⟨found, hfound⟩ := Option.isSome_iff_exists.mp hfound
  obtain ⟨rest, rfl⟩ := hm _ _ _ hfound
  exact ho (by simp)

theorem rel_of_isInfix {R : Char → Char → Prop} {c d : Char} (ht : t.IsChain R)
    (hpair : [c, d] <:+: t) : R c d := by
  have hchain := List.IsChain.infix ht hpair
  exact hchain.rel

theorem removeFrom_of_isChain {o o' : Char} (hm : m.StartsWithPair o o')
    (hx : (x ++ v.head?.toList).IsChain fun c d => c = o → d ≠ o') :
    m.removeFrom before 0 (x ++ v) = x ++ m.removeFrom (x.getLast?.or before) 0 v := by
  refine removeFrom_quiet fun u w hparts hw => Option.eq_none_iff_forall_ne_some.mpr ?_
  intro found hfound
  obtain ⟨rest, hrest⟩ := hm _ _ _ hfound
  obtain ⟨c, w, rfl⟩ := List.exists_cons_of_ne_nil hw
  subst hparts
  have hpair : [o, o'] <:+: u ++ c :: w ++ v.head?.toList := by
    obtain ⟨rfl, hw⟩ := List.cons.inj hrest
    cases w with
    | nil =>
      obtain rfl : v = o' :: rest := hw
      exact ⟨u, [], by simp⟩
    | cons d w =>
      obtain ⟨rfl, -⟩ := List.cons.inj hw
      exact ⟨u, w ++ v.head?.toList, by simp⟩
  exact rel_of_isInfix hx hpair rfl rfl

end ArticleArchive.Markup
