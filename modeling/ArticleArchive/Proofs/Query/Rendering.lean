import ArticleArchive.Proofs.Query.Seam

namespace ArticleArchive

open Lexeme (isViewsName isBareChar directions)

namespace Text

theorem isBlank_of_isWordChar {c : Char} (h : isWordChar c = true) : isBlank c = false := by
  have hranges : (wordRanges.all fun r =>
      blankCodes.all fun n => n.blt r.1 || r.2.blt n) = true := by
    decide +kernel
  refine Bool.eq_false_iff.mpr fun hb => ?_
  obtain ⟨r, hr, hc⟩ := CodeRanges.contains_iff.mp h
  have hout := List.all_eq_true.mp (List.all_eq_true.mp hranges r hr) _ (mem_blankCodes hb)
  rw [Bool.or_eq_true, Nat.blt_eq, Nat.blt_eq] at hout
  omega

theorem ne_of_isWordChar {c d : Char} (h : isWordChar c = true) (hd : isWordChar d = false) :
    c ≠ d := by
  rintro rfl
  simp [h] at hd

end Text

namespace Token

/-- The text that a token is written as; only the values of plain fields can be quoted. -/
def rendered : Token → Text
  | word t => t
  | phrase t => enclosed true t
  | field name value quoted => name ++ ':' :: enclosed quoted value
  | range name op value => name ++ ':' :: (op.written ++ value)
  | dates low high => dateField ++ ':' :: (low ++ '.' :: '.' :: high)
  | sort key direction => sortField ++ ':' :: (key ++ ':' :: direction)
  | connective c => c.keyword
  | exclude t => '-' :: t.rendered
  | unknown => []

def rendering (ts : List Token) : Text :=
  [' '].intercalate (ts.map rendered)

/-- An exclusion, a keyword, a comparison and an interval, as they are written. -/
example : rendering [.exclude (.phrase "a b".toList), .connective .or,
    .range "views".toList .ge "10".toList, .dates "2020".toList "2021".toList] =
      "-\"a b\" OR views:>=10 date:2020..2021".toList := by
  decide

/-- A token that the scanner may find where no hyphen is in front, or right after one. -/
def IsTerm (excluded : Bool) : Token → Prop
  | word t => t.Plain ∧ (∀ name rest, Text.IsName name → t ≠ name ++ ':' :: rest) ∧
      (excluded = false → ∀ c : Connective, t ≠ c.keyword)
  | phrase t => t.Quotable
  | field name value quoted =>
    name.IsName ∧ name ≠ sortField ∧ name ≠ dateField ∧ isViewsName name = false ∧
      if quoted then value.Quotable else value.Plain
  | range name op value =>
    value.Quotable ∧ op.EndsBefore value ∧
      (isViewsName name = true ∨ name = dateField ∧ op ≠ .eq ∧ ¬ Text.dots <:+: value)
  | dates low high => low.Quotable ∧ high.Quotable ∧ ¬ Text.dots <:+: low
  | sort key direction =>
    key ≠ [] ∧ (∀ c ∈ key, Text.isWordChar c = true) ∧ direction ∈ directions
  | connective _ => excluded = false
  | exclude _ | unknown => False

/-- A token that the scanner may find. -/
def Legible : Token → Prop
  | word t => IsTerm false (.word t) ∧ ∀ c s, t ≠ '-' :: c :: s
  | exclude t => t.IsTerm true
  | t => t.IsTerm false

/-- The values of comparisons and intervals can do without quotes, and the dots between the ends of
an interval come right after the first end. -/
def StandsBare : Token → Prop
  | range _ _ value => value.Plain
  | dates low high => low.Plain ∧ high.Plain ∧ low.getLast? ≠ some '.'
  | exclude t => t.StandsBare
  | _ => True

/-- A token that can be written down and read back. -/
structure WellFormed (t : Token) : Prop where
  legible : t.Legible
  bare : t.StandsBare

theorem isName_of_isViewsName {name : Text} (h : isViewsName name = true) : name.IsName := by
  rw [isViewsName, Bool.or_eq_true, beq_iff_eq, beq_iff_eq] at h
  rcases h with rfl | rfl <;> exact ⟨rfl, List.all_eq_true.mp rfl⟩

theorem isName_dateField : dateField.IsName :=
  ⟨rfl, List.all_eq_true.mp rfl⟩

theorem isName_sortField : sortField.IsName :=
  ⟨rfl, List.all_eq_true.mp rfl⟩

theorem isName_of_range {excluded : Bool} {name value : Text} {op : Comparison}
    (h : IsTerm excluded (.range name op value)) : name.IsName := by
  rcases h.2.2 with hname | ⟨rfl, -⟩
  · exact isName_of_isViewsName hname
  · exact isName_dateField

theorem isBareChar_of_mem_written {op : Comparison} {value : Text} (h : op.EndsBefore value) :
    ∀ c ∈ op.written, isBareChar c = true := by
  cases op with
  | other => exact h.elim
  | _ => exact List.all_eq_true.mp rfl

theorem plain_written_append {op : Comparison} {value : Text} (h : op.EndsBefore value)
    (hv : value.Plain) : (op.written ++ value).Plain := by
  refine ⟨by simp [hv.1], fun c hc => ?_⟩
  rcases List.mem_append.mp hc with hc | hc
  · exact isBareChar_of_mem_written h c hc
  · exact hv.2 c hc

theorem dots_infix_mark_iff {op : Comparison} (h : op.isInequality = true) {value : Text} :
    Text.dots <:+: op.mark ++ value ↔ Text.dots <:+: value := by
  cases op with
  | gt | ge | lt | le => simp [Comparison.mark, Text.dots, List.infix_cons_iff]
  | eq | other => simp [Comparison.isInequality] at h

theorem plain_interval {low high : Text} (hl : low.Plain) (hh : high.Plain) :
    Text.Plain (low ++ '.' :: '.' :: high) := by
  refine ⟨by simp, fun c hc => ?_⟩
  rcases List.mem_append.mp hc with hc | hc
  · exact hl.2 c hc
  · rcases List.mem_cons.mp hc with rfl | hc
    · rfl
    · rcases List.mem_cons.mp hc with rfl | hc
      · rfl
      · exact hh.2 c hc

theorem isBareChar_of_isWordChar {c : Char} (h : Text.isWordChar c = true) :
    isBareChar c = true := by
  have hq : c ≠ '"' := Text.ne_of_isWordChar h (by decide +kernel)
  simp [isBareChar, Text.isBlank_of_isWordChar h, hq]

theorem plain_directive {key direction : Text} (hk : ∀ c ∈ key, Text.isWordChar c = true)
    (hd : direction ∈ directions) : Text.Plain (key ++ ':' :: direction) := by
  refine ⟨by simp, fun c hc => ?_⟩
  rcases List.mem_append.mp hc with hc | hc
  · exact isBareChar_of_isWordChar (hk c hc)
  · rcases List.mem_cons.mp hc with rfl | hc
    · rfl
    · exact (Lexeme.isDirection_of_mem hd).2.2 c hc

theorem scanTerm_of_fieldToken {excluded quoted : Bool} {name value : Text} {k : Token}
    (hn : name.IsName) (hv : Lexeme.Delimited [] quoted value)
    (hk : Lexeme.fieldToken name value (enclosed quoted value) quoted = .ok k) :
    Lexeme.scanTerm excluded (name ++ ':' :: enclosed quoted value) = .ok (k, []) := by
  rw [Lexeme.scanTerm_named hn]
  exact Lexeme.scanField_eq_ok_iff.mpr ⟨quoted, value, by simp, hv, hk⟩

theorem scanTerm_of_plain {excluded : Bool} {name value : Text} {k : Token} (hn : name.IsName)
    (hv : value.Plain) (hk : Lexeme.fieldToken name value value false = .ok k) :
    Lexeme.scanTerm excluded (name ++ ':' :: value) = .ok (k, []) := by
  have hd : Lexeme.Delimited [] false value := ⟨hv, by simp⟩
  exact scanTerm_of_fieldToken hn hd hk

theorem bareToken_eq_word {excluded : Bool} {t : Text}
    (h : excluded = false → ∀ c : Connective, t ≠ c.keyword) :
    Lexeme.bareToken t excluded = .word t := by
  cases excluded with
  | true => rfl
  | false => simp [Lexeme.bareToken, h rfl]

theorem scanTerm_rendered {excluded : Bool} {t : Token} (h : t.IsTerm excluded)
    (hb : t.StandsBare) : Lexeme.scanTerm excluded t.rendered = .ok (t, []) := by
  cases t with
  | word t =>
    obtain ⟨hplain, hname, hkey⟩ := h
    have hread : Lexeme.readBare t = (t, []) :=
      Lexeme.readBare_eq_iff.mpr ⟨by simp, hplain.2, by simp⟩
    have hquote : ∀ s, t ≠ '"' :: s := by simpa using hplain.quotable.append_ne_quote_cons []
    exact Lexeme.scanTerm_eq_ok_iff.mpr
      (.inr (.inr ⟨hquote, hname, t, (bareToken_eq_word hkey).symm, hread⟩))
  | phrase t => exact Lexeme.scanTerm_eq_ok_iff.mpr (.inl ⟨t, rfl, h, by simp [rendered]⟩)
  | field name value quoted =>
    obtain ⟨hname, hsort, hdate, hviews, hv⟩ := h
    refine scanTerm_of_fieldToken hname ?_
      (Lexeme.fieldToken_eq_ok_iff.mpr (.inr (.inr (.inr ⟨hsort, hdate, hviews, rfl⟩))))
    cases quoted with
    | true => exact hv
    | false => exact ⟨hv, by simp⟩
  | range name op value =>
    obtain ⟨hv, hop, hname⟩ := h
    have hplain := plain_written_append hop hb
    -- the views and the day are compared by readers of their own
    rcases hname with hname | ⟨rfl, hne, hdots⟩
    · refine scanTerm_of_plain (isName_of_isViewsName hname) hplain
        (Lexeme.fieldToken_eq_ok_iff.mpr (.inr (.inr (.inl ⟨hname, ?_⟩))))
      exact (Lexeme.numberToken_eq_ok_iff hplain.1).mpr ⟨op, value, rfl, hv.1, rfl, hop⟩
    · refine scanTerm_of_plain isName_dateField hplain
        (Lexeme.fieldToken_eq_ok_iff.mpr (.inr (.inl ⟨rfl, ?_⟩)))
      have hineq := Comparison.isInequality_of_endsBefore hop hne
      rw [← dots_infix_mark_iff hineq] at hdots
      rw [Comparison.written_of_isInequality hineq]
      exact Lexeme.dateToken_eq_ok_iff.mpr
        (.inr ⟨hdots, .inl ⟨op, value, rfl, hv.1, rfl, hineq, hop⟩⟩)
  | dates low high =>
    obtain ⟨hl, hh, hdots⟩ := h
    obtain ⟨hlow, hhigh, hlast⟩ := hb
    refine scanTerm_of_plain isName_dateField (plain_interval hlow hhigh)
      (Lexeme.fieldToken_eq_ok_iff.mpr (.inr (.inl ⟨rfl, ?_⟩)))
    refine Lexeme.dateToken_eq_ok_iff.mpr (.inl ⟨low, high, rfl, hl.1, hh.1, rfl, ?_⟩)
    rw [Text.dots_infix_concat_iff, not_or]
    exact ⟨hdots, hlast⟩
  | sort key direction =>
    obtain ⟨hne, hkey, hd⟩ := h
    obtain ⟨hdir, hlower, -⟩ := Lexeme.isDirection_of_mem hd
    refine scanTerm_of_plain isName_sortField (plain_directive hkey hd)
      (Lexeme.fieldToken_eq_ok_iff.mpr (.inl ⟨rfl, ?_⟩))
    exact Lexeme.sortToken?_eq_some_iff.mpr
      ⟨key, direction, by rw [hlower], rfl, hne, hkey, hdir⟩
  | connective c =>
    obtain rfl : excluded = false := h
    cases c <;> rfl
  | exclude | unknown => exact h.elim

theorem isTerm_bareToken {excluded : Bool} {t : Text} (ht : t.Plain)
    (hn : ∀ name rest, Text.IsName name → t ≠ name ++ ':' :: rest) :
    (Lexeme.bareToken t excluded).IsTerm excluded := by
  unfold Lexeme.bareToken
  split
  · rename_i he
    exact ⟨ht, hn, by simp [he]⟩
  · rename_i he
    have he : excluded = false := by simpa using he
    split
    · exact he
    · split
      · exact he
      · rename_i hand hor
        refine ⟨ht, hn, fun _ c => ?_⟩
        cases c with
        | and => exact hand
        | or => exact hor

theorem isTerm_of_dateToken {excluded : Bool} {value : Text} {k : Token} (hv : value.Quotable)
    (h : Lexeme.dateToken value = .ok k) : k.IsTerm excluded := by
  rcases Lexeme.dateToken_eq_ok_iff.mp h with
    ⟨low, high, rfl, hl, hh, rfl, hdots⟩ | ⟨hdots, ⟨op, day, rfl, hd, rfl, hineq, hop⟩ | ⟨rfl, -⟩⟩
  · obtain ⟨hlow, hhigh⟩ : '"' ∉ low ∧ '"' ∉ high := by simpa using hv.2
    rw [Text.dots_infix_concat_iff, not_or] at hdots
    exact ⟨⟨hl, hlow⟩, ⟨hh, hhigh⟩, hdots.1⟩
  · have hquote : '"' ∉ day := fun hm => hv.2 (List.mem_append_right _ hm)
    have hne : op ≠ .eq := by
      rintro rfl
      simp [Comparison.isInequality] at hineq
    rw [dots_infix_mark_iff hineq] at hdots
    exact ⟨⟨hd, hquote⟩, hop, .inr ⟨rfl, hne, hdots⟩⟩
  · exact ⟨hv, hv, hdots⟩

theorem isTerm_of_fieldToken {excluded quoted : Bool} {name value written rest : Text} {k : Token}
    (hn : name.IsName) (hv : Lexeme.Delimited rest quoted value)
    (h : Lexeme.fieldToken name value written quoted = .ok k) : k.IsTerm excluded := by
  have hquotable := hv.quotable
  rcases Lexeme.fieldToken_eq_ok_iff.mp h with
    ⟨-, h⟩ | ⟨-, h⟩ | ⟨hviews, h⟩ | ⟨hsort, hdate, hviews, rfl⟩
  · obtain ⟨key, word, rfl, -, hne, hkey, hw⟩ := Lexeme.sortToken?_eq_some_iff.mp h
    exact ⟨hne, hkey, hw.mem_directions⟩
  · exact isTerm_of_dateToken hquotable h
  · obtain ⟨op, number, rfl, hne, rfl, hop⟩ :=
      (Lexeme.numberToken_eq_ok_iff hquotable.1).mp h
    have hquote : '"' ∉ number := fun hm => hquotable.2 (List.mem_append_right _ hm)
    exact ⟨⟨hne, hquote⟩, hop, .inl hviews⟩
  · refine ⟨hn, hsort, hdate, hviews, ?_⟩
    cases quoted with
    | true => exact hv
    | false => exact hv.1

theorem isTerm_of_scanTerm {excluded : Bool} {c : Char} {t r : Text} {k : Token}
    (hc : Text.isBlank c = false) (h : Lexeme.scanTerm excluded (c :: t) = .ok (k, r)) :
    k.IsTerm excluded := by
  rcases Lexeme.scanTerm_eq_ok_iff.mp h with
    ⟨text, rfl, htext, -⟩ | ⟨name, rest, hn, -, h⟩ | ⟨hquote, hname, text, rfl, hread⟩
  · exact htext
  · obtain ⟨quoted, value, -, hv, hk⟩ := Lexeme.scanField_eq_ok_iff.mp h
    exact isTerm_of_fieldToken hn hv hk
  · obtain ⟨ht, hall, hr⟩ := Lexeme.readBare_eq_iff.mp hread
    have hcquote : c ≠ '"' := fun he => hquote t (by rw [he])
    have hbare : isBareChar c = true := by simp [isBareChar, hc, hcquote]
    have hne : text ≠ [] := by
      rintro rfl
      rw [List.nil_append] at ht
      exact absurd (hr c (by rw [← ht]; rfl)) (by simp [hbare])
    refine isTerm_bareToken ⟨hne, hall⟩ fun name rest hn he => ?_
    exact hname name (rest ++ r) hn (by rw [ht, he]; simp)

theorem legible_of_scanToken {c : Char} {t r : Text} {k : Token} (hc : Text.isBlank c = false)
    (h : Lexeme.scanToken (c :: t) = .ok (k, r)) : k.Legible := by
  rcases Lexeme.scanToken_eq_ok_iff.mp h with ⟨d, s, u, -, hd, rfl, hterm⟩ | ⟨hno, hterm⟩
  · exact isTerm_of_scanTerm hd hterm
  · have hk := isTerm_of_scanTerm hc hterm
    cases k with
    | word w =>
      refine ⟨hk, ?_⟩
      rintro d s rfl
      -- the word stands at the beginning of the text
      obtain ⟨_, hs, -, ⟨⟩⟩ := Lexeme.scanTerm_spelled hterm
      have hd := Lexeme.isBlank_of_isBareChar (hk.1.2 d (by simp))
      exact absurd (hno d (s ++ r) hs) (by simp [hd])
    | exclude | unknown => exact hk.elim
    | _ => exact hk

/-- A term is written without quotes, or all in quotes, or as a field. -/
theorem IsTerm.rendered_cases {excluded : Bool} {t : Token} (h : t.IsTerm excluded) :
    t.rendered.Plain ∨ (∃ text, t.rendered = enclosed true text ∧ '"' ∉ text) ∨
      ∃ name quoted value, t.rendered = name ++ ':' :: enclosed quoted value ∧
        Text.IsName name ∧ '"' ∉ value := by
  cases t with
  | word t => exact .inl h.1
  | phrase t => exact .inr (.inl ⟨t, rfl, h.2⟩)
  | field name value quoted =>
    obtain ⟨hname, -, -, -, hv⟩ := h
    refine .inr (.inr ⟨name, quoted, value, rfl, hname, ?_⟩)
    cases quoted with
    | true => exact hv.2
    | false => exact hv.quotable.2
  | range name op value =>
    have hname := isName_of_range h
    obtain ⟨hv, hop, -⟩ := h
    refine .inr (.inr ⟨name, false, op.written ++ value, rfl, hname, ?_⟩)
    rw [List.mem_append, not_or]
    exact ⟨fun hm => absurd (isBareChar_of_mem_written hop _ hm) (by decide), hv.2⟩
  | dates low high =>
    obtain ⟨hl, hh, -⟩ := h
    exact .inr (.inr ⟨dateField, false, _, rfl, isName_dateField, by simp [hl.2, hh.2]⟩)
  | sort key direction =>
    obtain ⟨-, hkey, hd⟩ := h
    exact .inr (.inr ⟨sortField, false, _, rfl, isName_sortField,
      (plain_directive hkey hd).quotable.2⟩)
  | connective c =>
    refine .inl ?_
    cases c <;> exact ⟨by decide, List.all_eq_true.mp rfl⟩
  | exclude | unknown => exact h.elim

theorem IsTerm.exists_rendered_cons {excluded : Bool} {t : Token} (h : t.IsTerm excluded) :
    ∃ c s, t.rendered = c :: s ∧ Text.isBlank c = false := by
  rcases h.rendered_cases with ⟨hne, hall⟩ | ⟨text, ht, -⟩ | ⟨name, quoted, value, ht, hname, -⟩
  · obtain ⟨c, s, hs⟩ := List.exists_cons_of_ne_nil hne
    exact ⟨c, s, hs, Lexeme.isBlank_of_isBareChar (hall c (by simp [hs]))⟩
  · exact ⟨'"', text ++ ['"'], ht, by decide⟩
  · cases name with
    | nil => exact hname.elim
    | cons c name =>
      have hc := Lexeme.isBlank_of_isNameChar (Lexeme.isNameChar_of_isNameStart hname.1)
      exact ⟨c, _, ht, hc⟩

theorem IsTerm.balanced {excluded : Bool} {t : Token} (h : t.IsTerm excluded) :
    t.rendered.Balanced := by
  rcases h.rendered_cases with hplain | ⟨text, ht, htext⟩ | ⟨name, quoted, value, ht, hname, hv⟩
  · exact Text.balanced_of_not_mem hplain.quotable.2
  · rw [ht]
    exact Text.balanced_enclosed true htext
  · rw [ht, Text.Balanced.append_iff (Text.balanced_of_not_mem hname.quote_notMem),
      Text.balanced_cons_iff (by decide)]
    exact Text.balanced_enclosed quoted hv

theorem Legible.isTerm_or {t : Token} (h : t.Legible) :
    t.IsTerm false ∨ ∃ u, t = .exclude u ∧ u.IsTerm true := by
  cases t with
  | word => exact .inl h.1
  | exclude u => exact .inr ⟨u, rfl, h⟩
  | _ => exact .inl h

theorem Legible.exists_rendered_cons {t : Token} (h : t.Legible) :
    ∃ c s, t.rendered = c :: s ∧ Text.isBlank c = false := by
  rcases h.isTerm_or with h | ⟨u, rfl, -⟩
  · exact h.exists_rendered_cons
  · exact ⟨'-', u.rendered, rfl, by decide⟩

theorem Legible.balanced {t : Token} (h : t.Legible) : t.rendered.Balanced := by
  rcases h.isTerm_or with h | ⟨u, rfl, hu⟩
  · exact h.balanced
  · exact (Text.balanced_cons_iff (by decide) _).mpr hu.balanced

theorem eq_of_enclosed_append {quoted : Bool} {value r : Text}
    (h : value = enclosed quoted value ++ r) : quoted = false := by
  cases quoted with
  | false => rfl
  | true =>
    have hlength := congrArg List.length h
    simp [enclosed] at hlength
    omega

theorem value_of_fieldToken_range {name u written value : Text} {n : Text} {op : Comparison}
    {quoted : Bool} (h : Lexeme.fieldToken name u written quoted = .ok (.range n op value))
    (hu : u ≠ []) : u = op.written ++ value := by
  rcases Lexeme.fieldToken_eq_ok_iff.mp h with ⟨-, h⟩ | ⟨-, h⟩ | ⟨-, h⟩ | ⟨-, -, -, h⟩
  · obtain ⟨_, _, ⟨⟩, -⟩ := Lexeme.sortToken?_eq_some_iff.mp h
  · rcases Lexeme.dateToken_eq_ok_iff.mp h with
      ⟨_, _, ⟨⟩, -⟩ | ⟨-, ⟨_, _, ⟨⟩, -, hv, hop, -⟩ | ⟨⟨⟩, -⟩⟩
    rw [hv, Comparison.written_of_isInequality hop]
  · obtain ⟨_, _, ⟨⟩, -, hv, -⟩ := (Lexeme.numberToken_eq_ok_iff hu).mp h
    exact hv
  · cases h

theorem value_of_fieldToken_dates {name u written low high : Text} {quoted : Bool}
    (h : Lexeme.fieldToken name u written quoted = .ok (.dates low high)) (hu : u ≠ []) :
    u = low ++ '.' :: '.' :: high ∧ ¬ Text.dots <:+: low ++ ['.'] ∨ u = low ∧ u = high := by
  rcases Lexeme.fieldToken_eq_ok_iff.mp h with ⟨-, h⟩ | ⟨-, h⟩ | ⟨-, h⟩ | ⟨-, -, -, h⟩
  · obtain ⟨_, _, ⟨⟩, -⟩ := Lexeme.sortToken?_eq_some_iff.mp h
  · rcases Lexeme.dateToken_eq_ok_iff.mp h with
      ⟨_, _, ⟨⟩, -, -, hv⟩ | ⟨-, ⟨_, _, ⟨⟩, -⟩ | ⟨⟨⟩, -⟩⟩
    · exact .inl hv
    · exact .inr ⟨rfl, rfl⟩
  · obtain ⟨_, _, ⟨⟩, -⟩ := (Lexeme.numberToken_eq_ok_iff hu).mp h
  · cases h

theorem standsBare_of_scanTerm {excluded : Bool} {t : Token} {r : Text} (h : t.IsTerm excluded)
    (hs : Lexeme.scanTerm excluded t.rendered = .ok (t, r)) : t.StandsBare := by
  cases t with
  | range name op value =>
    rw [rendered, Lexeme.scanTerm_named (isName_of_range h)] at hs
    obtain ⟨quoted, u, hu, hd, hk⟩ := Lexeme.scanField_eq_ok_iff.mp hs
    obtain rfl := value_of_fieldToken_range hk hd.quotable.1
    obtain rfl := eq_of_enclosed_append hu
    exact ⟨h.1.1, fun c hc => hd.1.2 c (List.mem_append_right _ hc)⟩
  | dates low high =>
    rw [rendered, Lexeme.scanTerm_named isName_dateField] at hs
    obtain ⟨quoted, u, hu, hd, hk⟩ := Lexeme.scanField_eq_ok_iff.mp hs
    rcases value_of_fieldToken_dates hk hd.quotable.1 with ⟨rfl, hdots⟩ | ⟨rfl, rfl⟩
    · obtain rfl := eq_of_enclosed_append hu
      rw [Text.dots_infix_concat_iff, not_or] at hdots
      have hall := hd.1.2
      refine ⟨⟨h.1.1, fun c hc => hall c (List.mem_append_left _ hc)⟩, ⟨h.2.1.1, fun c hc => ?_⟩,
        hdots.2⟩
      exact hall c (List.mem_append_right _ (List.mem_cons_of_mem _ (List.mem_cons_of_mem _ hc)))
    · -- a day alone would end before the dots, which do not end a value
      cases quoted with
      | true => exact absurd hu (h.1.append_ne_quote_cons _ _)
      | false =>
        obtain rfl := List.append_cancel_left hu
        exact absurd (hd.2 '.' rfl) (by decide)
  | exclude => exact h.elim
  | _ => trivial

theorem Legible.rendered_ne_hyphen {t : Token} (h : t.Legible) (ht : t.IsTerm false) (c : Char)
    (s : Text) : t.rendered ≠ '-' :: c :: s := by
  cases t with
  | word => exact h.2 c s
  | phrase => nofun
  | connective k => cases k <;> nofun
  | field => exact h.1.append_ne_cons (by decide) _ _
  | range name =>
    exact (isName_of_range ht).append_ne_cons (by decide) _ _
  | dates => exact isName_dateField.append_ne_cons (by decide) _ _
  | sort => exact isName_sortField.append_ne_cons (by decide) _ _
  | exclude | unknown => exact ht.elim

theorem scanToken_term {t : Token} (h : t.Legible) (ht : t.IsTerm false) :
    Lexeme.scanToken t.rendered = Lexeme.scanTerm false t.rendered :=
  Lexeme.scanToken_of_no_exclusion fun c s he => absurd he (h.rendered_ne_hyphen ht c s)

theorem scanToken_exclude {t : Token} (h : t.IsTerm true) :
    Lexeme.scanToken (exclude t).rendered =
      (Lexeme.scanTerm true t.rendered).map fun p => (.exclude p.1, p.2) := by
  obtain ⟨c, s, hs, hc⟩ := h.exists_rendered_cons
  rw [rendered, hs]
  exact Lexeme.scanToken_hyphen hc s

theorem scanToken_rendered {t : Token} (h : t.WellFormed) :
    Lexeme.scanToken t.rendered = .ok (t, []) := by
  rcases h.legible.isTerm_or with ht | ⟨u, rfl, hu⟩
  · rw [scanToken_term h.legible ht, scanTerm_rendered ht h.bare]
  · rw [scanToken_exclude hu, scanTerm_rendered hu h.bare]
    rfl

theorem standsBare_of_scanToken {t : Token} {r : Text} (h : t.Legible)
    (hs : Lexeme.scanToken t.rendered = .ok (t, r)) : t.StandsBare := by
  rcases h.isTerm_or with ht | ⟨u, rfl, hu⟩
  · rw [scanToken_term h ht] at hs
    exact standsBare_of_scanTerm ht hs
  · rw [scanToken_exclude hu] at hs
    obtain ⟨⟨k, r'⟩, hk, he⟩ := map_eq_ok_iff.mp hs
    obtain ⟨rfl, rfl⟩ := by simpa using he
    have hbare : Token.StandsBare k := standsBare_of_scanTerm hu hk
    exact hbare

end Token

namespace Lexeme

def tokens (raw : Text) : Except Failure (List Token) :=
  (ofText raw).map (List.map (·.token))

theorem tokens_nil : tokens [] = .ok [] := by
  have hbalanced : Text.Balanced [] := rfl
  rw [tokens, ofText_ok hbalanced (scanFrom_nil 0)]
  rfl

theorem tokens_append {p q : Text} (hp : p.Balanced) (hq : q.Balanced) :
    tokens (p ++ ' ' :: q) = (tokens p).bind fun ts => (tokens q).map (ts ++ ·) := by
  have hblank : ∀ c ∈ [' '], Text.isBlank c = true := List.all_eq_true.mp rfl
  have happ := ofText_append_blanks hp hq (List.cons_ne_nil ' ' []) hblank
  rw [List.singleton_append] at happ
  rw [tokens, happ, tokens, tokens]
  cases ofText p with
  | error e => rfl
  | ok ls =>
    cases ofText q with
    | error e => rfl
    | ok ms =>
      simp only [Except.bind, Except.map, List.map_append, map_token_shift]

theorem legible_of_scanFrom {n : Nat} {t : Text} {ls : List Lexeme} (h : scanFrom n t = .ok ls) :
    ∀ l ∈ ls, l.token.Legible := by
  fun_induction scanFrom n t generalizing ls with
  | case1 n =>
    obtain rfl := Except.ok.inj h
    simp
  | case2 n c cs hc ih => exact ih h
  | case3 n c cs hc e he => simp at h
  | case4 n c cs hc k rest hk stop =>
    rename_i ih
    obtain ⟨ls', hls, rfl⟩ := map_eq_ok_iff.mp h
    exact List.forall_mem_cons.mpr
      ⟨Token.legible_of_scanToken (by simpa using hc) hk, ih hls⟩

theorem legible_of_tokens {raw : Text} {ts : List Token} (h : tokens raw = .ok ts) :
    ∀ t ∈ ts, t.Legible := by
  obtain ⟨ls, hls, rfl⟩ := map_eq_ok_iff.mp h
  exact List.forall_mem_map.mpr (legible_of_scanFrom (ofText_eq_ok_iff.mp hls).2)

theorem scanToken_of_tokens {c : Char} {t : Text} {us : List Token}
    (hc : Text.isBlank c = false) (h : tokens (c :: t) = .ok us) :
    ∃ u us' r, us = u :: us' ∧ scanToken (c :: t) = .ok (u, r) := by
  obtain ⟨ls, hls, rfl⟩ := map_eq_ok_iff.mp h
  have hscan := (ofText_eq_ok_iff.mp hls).2
  cases hk : scanToken (c :: t) with
  | error e => simp [scanFrom_error hc hk] at hscan
  | ok p =>
    rw [scanFrom_token hc hk] at hscan
    obtain ⟨ls', -, rfl⟩ := map_eq_ok_iff.mp hscan
    exact ⟨p.1, _, p.2, rfl, rfl⟩

end Lexeme

namespace Token

open Lexeme (tokens)

theorem tokens_rendered {t : Token} (h : t.WellFormed) : tokens t.rendered = .ok [t] := by
  have hk := scanToken_rendered h
  have hbalanced := h.legible.balanced
  obtain ⟨c, s, hs, hc⟩ := h.legible.exists_rendered_cons
  rw [hs] at hk hbalanced ⊢
  rw [tokens, Lexeme.ofText_ok hbalanced
    (Lexeme.scanFrom_token_ok hc hk rfl (Lexeme.scanFrom_nil _))]
  rfl

theorem exists_of_tokens_rendered {t : Token} {us : List Token} (h : t.Legible)
    (hu : tokens t.rendered = .ok us) :
    ∃ u us' r, us = u :: us' ∧ Lexeme.scanToken t.rendered = .ok (u, r) := by
  obtain ⟨c, s, hs, hc⟩ := h.exists_rendered_cons
  rw [hs] at hu ⊢
  exact Lexeme.scanToken_of_tokens hc hu

theorem rendering_cons_cons (t u : Token) (ts : List Token) :
    rendering (t :: u :: ts) = t.rendered ++ ' ' :: rendering (u :: ts) :=
  Text.intercalate_space_cons (List.cons_ne_nil _ _)

theorem rendering_singleton (t : Token) : rendering [t] = t.rendered := by
  simp [rendering, List.intercalate]

theorem balanced_rendering {ts : List Token} (h : ∀ t ∈ ts, t.Legible) :
    (rendering ts).Balanced := by
  induction ts with
  | nil => rfl
  | cons t ts ih =>
    obtain ⟨ht, hts⟩ := List.forall_mem_cons.mp h
    cases ts with
    | nil =>
      rw [rendering_singleton]
      exact ht.balanced
    | cons u ts =>
      rw [rendering_cons_cons, ht.balanced.append_iff, Text.balanced_cons_iff (by decide)]
      exact ih hts

theorem tokens_rendering_cons {t : Token} {ts : List Token} (ht : t.Legible)
    (hts : ∀ u ∈ ts, u.Legible) :
    tokens (rendering (t :: ts)) =
      (tokens t.rendered).bind fun us => (tokens (rendering ts)).map (us ++ ·) := by
  cases ts with
  | nil =>
    rw [rendering_singleton, show rendering [] = [] from rfl, Lexeme.tokens_nil]
    cases tokens t.rendered with
    | error e => rfl
    | ok us => simp [Except.bind, Except.map]
  | cons u ts =>
    rw [rendering_cons_cons, Lexeme.tokens_append ht.balanced (balanced_rendering hts)]

theorem length_le_of_tokens_rendering {ts us : List Token} (h : ∀ t ∈ ts, t.Legible)
    (hu : tokens (rendering ts) = .ok us) : ts.length ≤ us.length := by
  induction ts generalizing us with
  | nil => exact Nat.zero_le _
  | cons t ts ih =>
    obtain ⟨ht, hts⟩ := List.forall_mem_cons.mp h
    rw [tokens_rendering_cons ht hts] at hu
    obtain ⟨vs, hvs, hu⟩ := bind_eq_ok_iff.mp hu
    obtain ⟨ws, hws, rfl⟩ := map_eq_ok_iff.mp hu
    obtain ⟨v, vs', -, rfl, -⟩ := exists_of_tokens_rendered ht hvs
    have := ih hts hws
    simp only [List.length_cons, List.length_append]
    omega

/-- A list of tokens is read back from its rendering just if each of them is well formed. -/
theorem tokens_rendering_iff (ts : List Token) :
    tokens (rendering ts) = .ok ts ↔ ∀ t ∈ ts, t.WellFormed := by
  constructor
  · intro h
    have hlegible := Lexeme.legible_of_tokens h
    induction ts with
    | nil => simp
    | cons t ts ih =>
      obtain ⟨ht, hts⟩ := List.forall_mem_cons.mp hlegible
      rw [tokens_rendering_cons ht hts] at h
      obtain ⟨vs, hvs, h⟩ := bind_eq_ok_iff.mp h
      obtain ⟨ws, hws, happ⟩ := map_eq_ok_iff.mp h
      -- the rest gives as many tokens as it has, so the first token is the only one of its text
      obtain ⟨v, vs', r, rfl, hv⟩ := exists_of_tokens_rendered ht hvs
      have hlength := length_le_of_tokens_rendering hts hws
      obtain ⟨rfl, htail⟩ : v = t ∧ vs' ++ ws = ts := List.cons.inj happ
      have hempty : vs' = [] := by
        have htotal := congrArg List.length htail
        rw [List.length_append] at htotal
        exact List.eq_nil_of_length_eq_zero (by omega)
      subst hempty
      obtain rfl : ws = ts := htail
      exact List.forall_mem_cons.mpr ⟨⟨ht, standsBare_of_scanToken ht hv⟩, ih hws hts⟩
  · intro h
    induction ts with
    | nil => exact Lexeme.tokens_nil
    | cons t ts ih =>
      obtain ⟨ht, hts⟩ := List.forall_mem_cons.mp h
      rw [tokens_rendering_cons ht.legible fun u hu => (hts u hu).legible, tokens_rendered ht,
        ih hts]
      rfl

end Token

end ArticleArchive
