import Mathlib.Data.List.Forall2

namespace ArticleArchive

variable {ε ε' α β : Type}

theorem bind_eq_ok_iff {x : Except ε α} {f : α → Except ε β} {b : β} :
    (x >>= f) = .ok b ↔ ∃ a, x = .ok a ∧ f a = .ok b := by
  cases x with
  | error e => exact iff_of_false nofun (by simp)
  | ok a => exact ⟨fun h => ⟨a, rfl, h⟩, fun ⟨a', ha, h⟩ => Except.ok.inj ha ▸ h⟩

theorem bind_eq_error_iff {x : Except ε α} {f : α → Except ε β} {e : ε} :
    (x >>= f) = .error e ↔ x = .error e ∨ ∃ a, x = .ok a ∧ f a = .error e := by
  cases x with
  | error e' => exact ⟨fun h => .inl (by cases h; rfl), fun h => by simp_all [bind, Except.bind]⟩
  | ok a => exact ⟨fun h => .inr ⟨a, rfl, h⟩, fun h => by simp_all [bind, Except.bind]⟩

theorem map_eq_ok_iff {x : Except ε α} {f : α → β} {b : β} :
    x.map f = .ok b ↔ ∃ a, x = .ok a ∧ f a = b := by
  cases x <;> simp [Except.map]

theorem exists_ite_error_iff {p : Prop} [Decidable p] {e : ε} {a : α} :
    (∃ b, (if p then .error e else .ok a : Except ε α) = .ok b) ↔ ¬ p := by
  split <;> simp [*]

theorem mapError_eq_ok_iff {x : Except ε α} {f : ε → ε'} {a : α} :
    x.mapError f = .ok a ↔ x = .ok a := by
  cases x <;> simp [Except.mapError]

theorem mapError_eq_error_iff {x : Except ε α} {f : ε → ε'} {e : ε'} :
    x.mapError f = .error e ↔ ∃ e', x = .error e' ∧ f e' = e := by
  cases x <;> simp [Except.mapError]

theorem exists_of_mapM_eq_error {f : α → Except ε β} {l : List α} {e : ε}
    (h : l.mapM f = .error e) : ∃ a ∈ l, f a = .error e := by
  induction l with
  | nil => simp [pure, Except.pure] at h
  | cons a l ih =>
    rw [List.mapM_cons] at h
    rcases bind_eq_error_iff.mp h with h | ⟨b, -, h⟩
    · exact ⟨a, List.mem_cons_self, h⟩
    · rcases bind_eq_error_iff.mp h with h | ⟨bs, -, h⟩
      · obtain ⟨a', ha', he⟩ := ih h
        exact ⟨a', List.mem_cons_of_mem a ha', he⟩
      · simp [pure, Except.pure] at h

theorem exists_of_foldlM_eq_error {f : β → α → Except ε β} {l : List α} {b : β} {e : ε}
    (h : l.foldlM f b = .error e) : ∃ a ∈ l, ∃ b', f b' a = .error e := by
  induction l generalizing b with
  | nil => simp [pure, Except.pure] at h
  | cons a l ih =>
    rw [List.foldlM_cons] at h
    rcases bind_eq_error_iff.mp h with h | ⟨b', -, h⟩
    · exact ⟨a, List.mem_cons_self, b, h⟩
    · obtain ⟨a', ha', he⟩ := ih h
      exact ⟨a', List.mem_cons_of_mem a ha', he⟩

theorem mapM_eq_ok_iff {f : α → Except ε β} {l : List α} {bs : List β} :
    l.mapM f = .ok bs ↔ List.Forall₂ (fun a b => f a = .ok b) l bs := by
  induction l generalizing bs with
  | nil => simp [pure, Except.pure, eq_comm]
  | cons a l ih =>
    rw [List.mapM_cons, bind_eq_ok_iff, List.forall₂_cons_left_iff]
    constructor
    · rintro ⟨b, hb, h⟩
      obtain ⟨bs', hbs, h⟩ := bind_eq_ok_iff.mp h
      exact ⟨b, bs', hb, ih.mp hbs, (Except.ok.inj h).symm⟩
    · rintro ⟨b, bs', hb, hbs, rfl⟩
      exact ⟨b, hb, bind_eq_ok_iff.mpr ⟨bs', ih.mpr hbs, rfl⟩⟩

theorem mapM_cases {p : α → Prop} {f : α → Except ε β} {e : ε}
    (hf : ∀ a, p a ∧ (∃ b, f a = .ok b) ∨ ¬ p a ∧ f a = .error e) (l : List α) :
    (∀ a ∈ l, p a) ∧ (∃ bs, l.mapM f = .ok bs) ∨ (∃ a ∈ l, ¬ p a) ∧ l.mapM f = .error e := by
  induction l with
  | nil => exact .inl ⟨by simp, [], rfl⟩
  | cons a l ih =>
    rw [List.mapM_cons]
    rcases hf a with ⟨ha, b, hb⟩ | ⟨ha, he⟩
    · rcases ih with ⟨hl, bs, hbs⟩ | ⟨⟨c, hc, hpc⟩, hl⟩
      · exact .inl ⟨List.forall_mem_cons.mpr ⟨ha, hl⟩, b :: bs, by rw [hb, hbs]; rfl⟩
      · exact .inr ⟨⟨c, List.mem_cons_of_mem a hc, hpc⟩, by rw [hb, hl]; rfl⟩
    · exact .inr ⟨⟨a, List.mem_cons_self, ha⟩, by rw [he]; rfl⟩

theorem exists_of_mem_mapM {f : α → Except ε β} {l : List α} {bs : List β}
    (h : l.mapM f = .ok bs) {b : β} (hb : b ∈ bs) : ∃ a ∈ l, f a = .ok b := by
  have hall := mapM_eq_ok_iff.mp h
  induction hall with
  | nil => simp at hb
  | @cons a b' l bs ha _ ih =>
    rcases List.mem_cons.mp hb with rfl | hb
    · exact ⟨a, List.mem_cons_self, ha⟩
    · obtain ⟨a', ha', hf⟩ := ih (mapM_eq_ok_iff.mpr ‹_›) hb
      exact ⟨a', List.mem_cons_of_mem a ha', hf⟩

end ArticleArchive
