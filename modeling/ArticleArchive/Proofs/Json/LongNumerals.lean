import ArticleArchive.Proofs.Json.Parts

namespace ArticleArchive

/-- More digits stand in a row in the text than a numeral may have. -/
def Text.HasLongNumeral (t : Text) : Prop :=
  ∃ ds : Text, Text.maxDigits < ds.length ∧ (∀ c ∈ ds, c.isDigit = true) ∧ ds <:+: t

theorem Text.HasLongNumeral.mono {t u : Text} (h : t.HasLongNumeral) (hsub : t <:+: u) :
    u.HasLongNumeral := by
  obtain ⟨ds, hlong, hdigits, hinfix⟩ := h
  exact ⟨ds, hlong, hdigits, hinfix.trans hsub⟩

namespace Json

theorem skipWhite_suffix (t : Text) : skipWhite t <:+ t :=
  List.dropWhile_suffix isWhite

theorem suffix_of_skipWhite {t r : Text} {c : Char} (h : skipWhite t = c :: r) : r <:+ t :=
  (List.suffix_cons c r).trans (h ▸ skipWhite_suffix t)

theorem readText_suffix {t s r : Text} (h : readText t = some (s, r)) : r <:+ t := by
  obtain ⟨p, hp, -⟩ := exists_readText h
  exact ⟨p, hp.symm⟩

theorem readFraction_suffix (t : Text) : (readFraction t).2 <:+ t := by
  obtain ⟨p, hp, -⟩ := exists_readFraction (t := t) rfl
  exact ⟨p, hp.symm⟩

theorem readExponent_suffix (t : Text) : (readExponent t).2 <:+ t := by
  obtain ⟨p, hp, -⟩ := exists_readExponent (t := t) rfl
  exact ⟨p, hp.symm⟩

/-- Where a reader may end in a text: with a rest of the text, or at a numeral of it that is too
long. -/
def EndsIn {α : Type} (t : Text) (rest : α → Text) : Except Unreadable α → Prop
  | .ok a => rest a <:+ t
  | .error .longNumeral => t.HasLongNumeral
  | .error .malformed => True

theorem EndsIn.error_mono {α β : Type} {t u : Text} {f : α → Text} {g : β → Text} {e : Unreadable}
    (h : EndsIn t f (.error e)) (hsub : t <:+ u) : EndsIn u g (.error e) := by
  cases e with
  | malformed => trivial
  | longNumeral => exact Text.HasLongNumeral.mono h hsub.isInfix

theorem EndsIn.mono {α : Type} {t u : Text} {f : α → Text} {x : Except Unreadable α}
    (h : EndsIn t f x) (hsub : t <:+ u) : EndsIn u f x := by
  cases x with
  | ok a => exact List.IsSuffix.trans h hsub
  | error e => exact h.error_mono hsub

theorem readMagnitude_endsIn (negative : Bool) (t : Text) :
    EndsIn t (·.2) (readMagnitude negative t) := by
  unfold readMagnitude
  split
  · trivial
  · rename_i whole r hwhole
    obtain ⟨rfl, hdigits⟩ := readWhole?_eq_some hwhole
    have hrest : (readExponent (readFraction r).2).2 <:+ whole ++ r :=
      (readExponent_suffix _).trans ((readFraction_suffix r).trans (List.suffix_append whole r))
    dsimp only
    split
    · split
      · -- the only place where a numeral is found too long
        rename_i hlong
        exact ⟨whole, hlong, hdigits, (List.prefix_append whole r).isInfix⟩
      · exact hrest
    · exact hrest

theorem readPlain_endsIn (t : Text) : EndsIn t (·.2) (readPlain t) := by
  unfold readPlain
  split
  · exact List.drop_suffix _ t
  · split
    · exact (readMagnitude_endsIn true _).mono (List.suffix_cons _ _)
    · exact readMagnitude_endsIn false _

structure AllEndIn (t : Text) : Prop where
  value : EndsIn t (·.2.1) (readValue t)
  items : EndsIn t (·.2.1) (readItems t)
  fields : ∀ before, EndsIn t (·.2.1) (readFields t before)

variable {t : Text}

theorem readValue_endsIn_of (ih : ∀ u : Text, u.length < t.length → AllEndIn u) :
    EndsIn t (·.2.1) (readValue t) := by
  -- texts, lists, objects and plain values, each with a rest that is a suffix
  unfold readValue
  split
  · rename_i cs
    split
    · trivial
    · rename_i s r hread
      exact (readText_suffix hread).trans (List.suffix_cons _ _)
  · rename_i cs
    split
    · rename_i r hwhite
      exact (suffix_of_skipWhite hwhite).trans (List.suffix_cons _ _)
    · have hitems := (ih (skipWhite cs) (Nat.lt_succ_of_le (length_skipWhite_le cs))).items
      have hsub : skipWhite cs <:+ '[' :: cs := (skipWhite_suffix cs).trans (List.suffix_cons _ _)
      split
      · rename_i e he
        rw [he] at hitems
        exact hitems.error_mono hsub
      · rename_i vs r hr he
        rw [he] at hitems
        exact List.IsSuffix.trans hitems hsub
  · rename_i cs
    split
    · rename_i r hwhite
      exact (suffix_of_skipWhite hwhite).trans (List.suffix_cons _ _)
    · have hfields := (ih (skipWhite cs) (Nat.lt_succ_of_le (length_skipWhite_le cs))).fields []
      have hsub : skipWhite cs <:+ '\x7b' :: cs :=
        (skipWhite_suffix cs).trans (List.suffix_cons _ _)
      split
      · rename_i e he
        rw [he] at hfields
        exact hfields.error_mono hsub
      · rename_i fs r hr he
        rw [he] at hfields
        exact List.IsSuffix.trans hfields hsub
  · have hplain := readPlain_endsIn t
    split
    · rename_i e he
      rw [he] at hplain
      exact hplain.error_mono (List.suffix_refl t)
    · rename_i v r he
      rw [he] at hplain
      split
      · trivial
      · rename_i r' hr'
        obtain ⟨hlt, rfl⟩ : ∃ h : r.length < t.length, ⟨r, h⟩ = r' := by
          simpa [Rest.of?] using hr'
        exact hplain

theorem readItems_endsIn_of (hvalue : EndsIn t (·.2.1) (readValue t))
    (ih : ∀ u : Text, u.length < t.length → AllEndIn u) : EndsIn t (·.2.1) (readItems t) := by
  unfold readItems
  split
  · rename_i e he
    rw [he] at hvalue
    exact hvalue.error_mono (List.suffix_refl t)
  · rename_i v r hr he
    rw [he] at hvalue
    split
    · rename_i s hs
      exact (suffix_of_skipWhite hs).trans hvalue
    · rename_i s hs
      have hlt : (skipWhite s).length < t.length := by
        have := length_lt_of_skipWhite hs
        have := length_skipWhite_le s
        omega
      have hitems := (ih (skipWhite s) hlt).items
      have hsub : skipWhite s <:+ t :=
        (skipWhite_suffix s).trans ((suffix_of_skipWhite hs).trans hvalue)
      split
      · rename_i e he
        rw [he] at hitems
        exact hitems.error_mono hsub
      · rename_i vs q hq he
        rw [he] at hitems
        exact List.IsSuffix.trans hitems hsub
    · trivial

theorem readFields_endsIn_of (ih : ∀ u : Text, u.length < t.length → AllEndIn u)
    (before : List (Text × Json)) : EndsIn t (·.2.1) (readFields t before) := by
  unfold readFields
  split
  · rename_i cs
    split
    · trivial
    · rename_i name r hname
      split
      · rename_i s hs
        have hsub : skipWhite s <:+ '"' :: cs := (skipWhite_suffix s).trans
          ((suffix_of_skipWhite hs).trans ((readText_suffix hname).trans (List.suffix_cons _ _)))
        have hlt : (skipWhite s).length < ('"' :: cs : Text).length := by
          have := length_lt_of_readText hname
          have := length_lt_of_skipWhite hs
          have := length_skipWhite_le s
          simp only [List.length_cons]
          omega
        have hvalue := (ih (skipWhite s) hlt).value
        split
        · rename_i e he
          rw [he] at hvalue
          exact hvalue.error_mono hsub
        · rename_i v q hq he
          rw [he] at hvalue
          have hrest : q <:+ '"' :: cs := List.IsSuffix.trans hvalue hsub
          split
          · rename_i u hu
            exact (suffix_of_skipWhite hu).trans hrest
          · rename_i u hu
            have hlt' : (skipWhite u).length < ('"' :: cs : Text).length := by
              have := length_lt_of_skipWhite hu
              have := length_skipWhite_le u
              omega
            have hfields := (ih (skipWhite u) hlt').fields (setField name v before)
            have hsub' : skipWhite u <:+ '"' :: cs :=
              (skipWhite_suffix u).trans ((suffix_of_skipWhite hu).trans hrest)
            split
            · rename_i e he
              rw [he] at hfields
              exact hfields.error_mono hsub'
            · rename_i fs w hw he
              rw [he] at hfields
              exact List.IsSuffix.trans hfields hsub'
          · trivial
      · trivial
  · trivial

/-- Every reader reads a text from the front, and complains of a long numeral only if the text has
one. -/
theorem allEndIn (t : Text) : AllEndIn t := by
  induction h : t.length using Nat.strongRecOn generalizing t with
  | ind n ih =>
    have ih' : ∀ u : Text, u.length < t.length → AllEndIn u := fun u hu => ih _ (h ▸ hu) u rfl
    -- a list starts with a value of the whole text, so that the value comes first
    have hvalue := readValue_endsIn_of ih'
    exact ⟨hvalue, readItems_endsIn_of hvalue ih', readFields_endsIn_of ih'⟩

theorem hasLongNumeral_of_parse (h : parse t = .error .longNumeral) : t.HasLongNumeral := by
  have hvalue := (allEndIn (skipWhite t)).value
  unfold parse at h
  split at h
  · rename_i e he
    obtain rfl := Except.error.inj h
    rw [he] at hvalue
    exact Text.HasLongNumeral.mono hvalue (skipWhite_suffix t).isInfix
  · split at h <;> simp at h

variable {c : Char} {ds r : Text}

theorem parse_append_of_long (hc : c ≠ '0') (hdigits : ∀ d ∈ c :: ds, d.isDigit = true)
    (hlong : Text.maxDigits < (c :: ds).length) (hr : ∀ d ∈ r.head?, EndsNumeral d) :
    parse (c :: ds ++ r) = .error .longNumeral := by
  have hfraction : readFraction r = ([], r) := readFraction_of_head fun hd => (hr '.' hd).2.1 rfl
  have hexponent : readExponent r = (none, r) :=
    readExponent_of_head (fun hd => (hr 'e' hd).2.2.1 rfl) fun hd => (hr 'E' hd).2.2.2 rfl
  have hmagnitude : readMagnitude false (c :: ds ++ r) = .error .longNumeral := by
    have hwhole := readWhole?_append hc hdigits fun d hd => (hr d hd).1
    have htoo : magnitude false (c :: ds) [] none = .error .longNumeral := if_pos hlong
    rw [readMagnitude_eq hwhole hfraction hexponent, htoo]
    rfl
  have hfirst : ∀ d : Char, d.isDigit = false → c ≠ d := fun d =>
    ne_of_isDigit (hdigits c List.mem_cons_self)
  have hplain : readPlain (c :: ds ++ r) = .error .longNumeral := by
    have hnone := find_literals_of_isDigit (hdigits c List.mem_cons_self) (ds ++ r)
    rw [List.cons_append] at hmagnitude ⊢
    rw [readPlain, hnone]
    · exact hmagnitude
    · exact fun cs he => hfirst '-' rfl (List.cons.inj he).1
  have hvalue : ∀ t, t = c :: ds ++ r → readValue t = .error .longNumeral := by
    intro t ht
    unfold readValue
    split
    · exact absurd (List.cons.inj ht).1.symm (hfirst '"' rfl)
    · exact absurd (List.cons.inj ht).1.symm (hfirst '[' rfl)
    · exact absurd (List.cons.inj ht).1.symm (hfirst '\x7b' rfl)
    · rw [ht, hplain]
  have hwhite : skipWhite (c :: ds ++ r) = c :: ds ++ r := by
    refine List.dropWhile_cons_of_neg ?_
    simp [isWhite, hfirst ' ' rfl, hfirst '\t' rfl, hfirst '\n' rfl, hfirst '\r' rfl]
  rw [parse, hvalue _ hwhite]

end Json

end ArticleArchive
