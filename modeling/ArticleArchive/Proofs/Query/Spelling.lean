import ArticleArchive.Proofs.Query.Readers

namespace ArticleArchive

namespace Token

/-- The texts that a token can be written as. -/
inductive Spelled : Token → Text → Prop
  | word (t : Text) : Spelled (.word t) t
  | phrase (t : Text) : Spelled (.phrase t) (enclosed true t)
  | field (name value : Text) (quoted : Bool) :
      Spelled (.field name value quoted) (name ++ ':' :: enclosed quoted value)
  | comparison (name value : Text) (op : Comparison) (quoted : Bool)
      (hn : name = dateField ∨ Lexeme.isViewsName name = true) (ho : op.isInequality = true) :
      Spelled (.range name op value) (name ++ ':' :: enclosed quoted (op.mark ++ value))
  | equality (name value : Text) (quoted : Bool) (hn : Lexeme.isViewsName name = true) :
      Spelled (.range name .eq value) (name ++ ':' :: enclosed quoted value)
  | interval (low high : Text) (quoted : Bool) :
      Spelled (.dates low high) (dateField ++ ':' :: enclosed quoted (low ++ '.' :: '.' :: high))
  | day (day : Text) (quoted : Bool) :
      Spelled (.dates day day) (dateField ++ ':' :: enclosed quoted day)
  | sort (key direction : Text) (quoted : Bool) :
      Spelled (.sort key (direction.map Char.toLower))
        (sortField ++ ':' :: enclosed quoted (key ++ ':' :: direction))
  | connective (c : Connective) : Spelled (.connective c) c.keyword
  | exclude {t : Token} {s : Text} (h : Spelled t s) : Spelled (.exclude t) ('-' :: s)

end Token

/-- Whether the double quotes of a text come in pairs. -/
def Text.Balanced (t : Text) : Prop :=
  t.count '"' % 2 = 0

namespace Text

theorem balanced_of_not_mem {t : Text} (h : '"' ∉ t) : t.Balanced := by
  rw [Balanced, List.count_eq_zero.mpr h]

theorem Balanced.append_iff {s : Text} (hs : s.Balanced) (t : Text) :
    (s ++ t).Balanced ↔ t.Balanced := by
  unfold Balanced at *
  rw [List.count_append]
  omega

theorem balanced_enclosed {v : Text} (quoted : Bool) (h : '"' ∉ v) :
    (Token.enclosed quoted v).Balanced := by
  cases quoted with
  | false => exact balanced_of_not_mem h
  | true =>
    simp only [Token.enclosed, ite_true, Balanced, List.count_cons, List.count_append,
      List.count_eq_zero.mpr h]
    decide

theorem not_balanced_quote_cons {t : Text} (h : '"' ∉ t) : ¬ Balanced ('"' :: t) := by
  simp [Balanced, List.count_eq_zero.mpr h]

theorem balanced_cons_iff {c : Char} (hc : c ≠ '"') (t : Text) :
    Balanced (c :: t) ↔ t.Balanced := by
  simp [Balanced, hc]

end Text

namespace Lexeme

open Token (Spelled enclosed)

theorem dateToken_spelled {value : Text} {k : Token} (quoted : Bool)
    (h : dateToken value = .ok k) : Spelled k (dateField ++ ':' :: enclosed quoted value) := by
  rcases dateToken_eq_ok_iff.mp h with
    ⟨low, high, rfl, -, -, rfl, -⟩ | ⟨-, ⟨op, day, rfl, -, rfl, hop, -⟩ | ⟨rfl, -⟩⟩
  · exact .interval _ _ _
  · exact .comparison _ _ _ _ (.inl rfl) hop
  · exact .day _ _

theorem numberToken_spelled {name value : Text} {k : Token} (quoted : Bool)
    (hn : isViewsName name = true) (hv : value ≠ []) (h : numberToken name value = .ok k) :
    Spelled k (name ++ ':' :: enclosed quoted value) := by
  obtain ⟨op, number, rfl, -, rfl, hop⟩ := (numberToken_eq_ok_iff hv).mp h
  by_cases he : op = .eq
  · subst he
    exact .equality _ _ _ hn
  · have hineq := Comparison.isInequality_of_endsBefore hop he
    rw [Comparison.written_of_isInequality hineq]
    exact .comparison _ _ _ _ (.inr hn) hineq

theorem fieldToken_spelled {name value written : Text} {quoted : Bool} {k : Token}
    (hv : value ≠ []) (h : fieldToken name value written quoted = .ok k) :
    Spelled k (name ++ ':' :: enclosed quoted value) := by
  rcases fieldToken_eq_ok_iff.mp h with ⟨rfl, hk⟩ | ⟨rfl, hk⟩ | ⟨hn, hk⟩ | ⟨-, -, -, rfl⟩
  · obtain ⟨key, word, rfl, rfl, -⟩ := sortToken?_eq_some_iff.mp hk
    exact .sort _ _ _
  · exact dateToken_spelled quoted hk
  · exact numberToken_spelled quoted hn hv hk
  · exact .field _ _ _

theorem scanField_spelled {name t r : Text} {k : Token} (h : scanField name t = .ok (k, r)) :
    ∃ s, t = s ++ r ∧ s.Balanced ∧ Spelled k (name ++ ':' :: s) := by
  obtain ⟨quoted, value, rfl, hv, hk⟩ := scanField_eq_ok_iff.mp h
  exact ⟨_, rfl, Text.balanced_enclosed quoted hv.quotable.2, fieldToken_spelled hv.quotable.1 hk⟩

theorem bareToken_spelled (t : Text) (excluded : Bool) : Spelled (bareToken t excluded) t := by
  unfold bareToken
  split
  · exact .word t
  · split
    · rename_i h
      rw [h]
      exact .connective .and
    · split
      · rename_i h
        rw [h]
        exact .connective .or
      · exact .word t

theorem scanTerm_spelled {excluded : Bool} {t r : Text} {k : Token}
    (h : scanTerm excluded t = .ok (k, r)) : ∃ s, t = s ++ r ∧ s.Balanced ∧ Spelled k s := by
  rcases scanTerm_eq_ok_iff.mp h with
    ⟨text, rfl, htext, rfl⟩ | ⟨name, rest, hname, rfl, hfield⟩ | ⟨-, -, text, rfl, hread⟩
  · exact ⟨_, rfl, Text.balanced_enclosed true htext.2, .phrase text⟩
  · obtain ⟨s, rfl, hs, hk⟩ := scanField_spelled hfield
    refine ⟨name ++ ':' :: s, by simp, ?_, hk⟩
    rw [Text.Balanced.append_iff (Text.balanced_of_not_mem hname.quote_notMem),
      Text.balanced_cons_iff (by decide)]
    exact hs
  · obtain ⟨rfl, hall, -⟩ := readBare_eq_iff.mp hread
    have hquote : '"' ∉ text := fun hm => absurd (hall _ hm) (by decide)
    exact ⟨text, rfl, Text.balanced_of_not_mem hquote, bareToken_spelled text excluded⟩

/-- The scanner takes from the front of a text a spelling of the token that it answers with, and
keeps pairs of double quotes together. -/
theorem scanToken_spelled {t r : Text} {k : Token} (h : scanToken t = .ok (k, r)) :
    ∃ s, t = s ++ r ∧ s.Balanced ∧ Spelled k s := by
  rcases scanToken_eq_ok_iff.mp h with ⟨c, cs, u, rfl, -, rfl, hterm⟩ | ⟨-, hterm⟩
  · obtain ⟨s, hs, hb, hk⟩ := scanTerm_spelled hterm
    exact ⟨'-' :: s, by rw [hs, List.cons_append], (Text.balanced_cons_iff (by decide) s).mpr hb,
      .exclude hk⟩
  · exact scanTerm_spelled hterm

end Lexeme

end ArticleArchive
