import ArticleArchive.Proofs.Query.Reading

namespace ArticleArchive

/-- A result that says nothing against the meaning of a query. -/
def FormOnly {α : Type} (r : Except Failure α) : Prop :=
  ∀ ps, r ≠ .error (.rejected (.invalid ps))

namespace FormOnly

variable {α β : Type}

theorem bind {r : Except Failure α} {g : α → Except Failure β} (h : FormOnly r)
    (hg : ∀ a, FormOnly (g a)) : FormOnly (r >>= g) := by
  intro ps hf
  rcases bind_eq_error_iff.mp hf with hr | ⟨a, -, ha⟩
  · exact h ps hr
  · exact hg a ps ha

end FormOnly

theorem Lexeme.formOnly_ofText (raw : Text) : FormOnly (Lexeme.ofText raw) := by
  intro ps h
  obtain ⟨m, hm⟩ := Lexeme.complainsOfForm_ofText raw _ h
  simp [Failure.malformed] at hm

namespace Chain

theorem formOnly_ofTokens (ts : List Token) : FormOnly (ofTokens ts) := by
  intro ps h
  rcases ofTokens_eq_error h with ⟨m, hm, -⟩ | ⟨hf, -⟩
  · simp [Failure.malformed] at hm
  · simp at hf

end Chain

namespace Query

theorem formOnly_parse (raw : Text) : FormOnly (parse raw) := by
  refine (Lexeme.formOnly_ofText raw).bind fun ls => ?_
  refine (Chain.formOnly_ofTokens _).bind fun s ps h => ?_
  obtain ⟨e, -, he⟩ := mapError_eq_error_iff.mp h
  simp [Failure.malformed] at he

theorem compile_eq_rejected_iff {raw : Text} {e : Rejection} :
    compile raw = .error (.rejected e) ↔
      (∃ m, parse raw = .error (.malformed m) ∧ e = .malformed m) ∨
        ∃ q, parse raw = .ok q ∧ q.problems ≠ [] ∧ e = .invalid q.problems := by
  have hcompile {q : Query} (hq : parse raw = .ok q) :
      compile raw = .error (.rejected e) ↔ q.problems ≠ [] ∧ e = .invalid q.problems := by
    cases hp : q.problems with
    | nil => simp [compile, hq, hp, bind, Except.bind, pure, Except.pure]
    | cons p ps =>
      simp [compile, hq, hp, bind, Except.bind, throw, throwThe, MonadExceptOf.throw, eq_comm]
  constructor
  · intro h
    rcases bind_eq_error_iff.mp h with hparse | ⟨q, hq, -⟩
    · cases e with
      | malformed m => exact .inl ⟨m, hparse, rfl⟩
      | invalid ps => exact absurd hparse (formOnly_parse raw ps)
    · exact .inr ⟨q, hq, (hcompile hq).mp h⟩
  · rintro (⟨m, h, rfl⟩ | ⟨q, hq, h⟩)
    · exact bind_eq_error_iff.mpr (.inl h)
    · exact (hcompile hq).mpr h

end Query

end ArticleArchive
