import ArticleArchive.Proofs.Query.Scan
import ArticleArchive.Proofs.Text.Numerals

namespace ArticleArchive.Lexeme

theorem toNat_of_isNameChar {c : Char} (h : isNameChar c = true) :
    48 ≤ c.toNat ∧ c.toNat ≤ 57 ∨ 65 ≤ c.toNat ∧ c.toNat ≤ 90 ∨ 95 ≤ c.toNat ∧ c.toNat ≤ 122 := by
  have hclass : (c.isUpper || c.isLower || c.isDigit || c == '_') = true := h
  simp only [Bool.or_eq_true, beq_iff_eq] at hclass
  rcases hclass with ((hupper | hlower) | hdigit) | rfl
  · exact .inr (.inl (of_decide_eq_true hupper))
  · obtain ⟨hl, hu⟩ := Bool.and_eq_true_iff.mp hlower
    have hl : 97 ≤ c.toNat := of_decide_eq_true hl
    have hu : c.toNat ≤ 122 := of_decide_eq_true hu
    omega
  · obtain ⟨hl, hu⟩ := Bool.and_eq_true_iff.mp hdigit
    exact .inl ⟨of_decide_eq_true hl, of_decide_eq_true hu⟩
  · decide

theorem isBlank_of_isNameChar {c : Char} (h : isNameChar c = true) : Text.isBlank c = false := by
  have := toNat_of_isNameChar h
  simp only [Text.isBlank, Text.isSpace, Bool.or_eq_false_iff, Bool.and_eq_false_iff,
    decide_eq_false_iff_not, beq_eq_false_iff_ne]
  omega

variable {b : Char}

theorem isNameChar_of_isBlank (hb : Text.isBlank b = true) : isNameChar b = false := by
  apply Bool.eq_false_iff.mpr
  intro h
  simp [isBlank_of_isNameChar h] at hb

theorem isNameStart_of_isBlank (hb : Text.isBlank b = true) : isNameStart b = false := by
  apply Bool.eq_false_iff.mpr
  intro h
  have hchar := isNameChar_of_isNameStart h
  simp [isNameChar_of_isBlank hb] at hchar

theorem isBareChar_of_isBlank (hb : Text.isBlank b = true) : isBareChar b = false := by
  simp [isBareChar, hb]

theorem ne_of_isBlank {c : Char} (hb : Text.isBlank b = true) (hc : Text.isBlank c = false) :
    b ≠ c := by
  rintro rfl
  simp [hb] at hc

theorem readQuoted?_append {t s r : Text} (h : readQuoted? t = some (s, r)) (u : Text) :
    readQuoted? (t ++ u) = some (s, r ++ u) := by
  obtain ⟨rfl, hs⟩ := readQuoted?_eq_some_iff.mp h
  exact readQuoted?_eq_some_iff.mpr ⟨by simp, hs⟩

theorem span_append {p : Char → Bool} (hb : p b = false) (t u : Text) :
    (t ++ b :: u).takeWhile p = t.takeWhile p ∧
      (t ++ b :: u).dropWhile p = t.dropWhile p ++ b :: u := by
  induction t with
  | nil => simp [hb]
  | cons c t ih => cases hc : p c <;> simp [hc, ih]

theorem readBare_append_blank (hb : Text.isBlank b = true) (t u : Text) :
    readBare (t ++ b :: u) = ((readBare t).1, (readBare t).2 ++ b :: u) := by
  obtain ⟨ht, hd⟩ := span_append (isBareChar_of_isBlank hb) t u
  rw [readBare, ht, hd, readBare]

theorem readFieldName?_append (hb : Text.isBlank b = true) (t u : Text) :
    readFieldName? (t ++ b :: u) = (readFieldName? t).map fun p => (p.1, p.2 ++ b :: u) := by
  cases t with
  | nil => simp [readFieldName?, isNameStart_of_isBlank hb]
  | cons c t =>
    obtain ⟨ht, hd⟩ := span_append (isNameChar_of_isBlank hb) t u
    simp only [readFieldName?, List.cons_append, ht, hd]
    split
    · cases hrest : t.dropWhile isNameChar with
      | nil =>
        have hcolon : b ≠ ':' := ne_of_isBlank hb (by decide)
        simp [hcolon]
      | cons d r =>
        by_cases hcolon : d = ':'
        · simp [hcolon]
        · simp [hcolon]
    · rfl

def before (u : Text) (p : Token × Text) : Token × Text :=
  (p.1, p.2 ++ u)

theorem scanField_append (hb : Text.isBlank b = true) (name : Text) {t : Text} (ht : t.Balanced)
    (u : Text) :
    scanField name (t ++ b :: u) = (scanField name t).map (before (b :: u)) := by
  by_cases hq : ∃ cs, t = '"' :: cs
  · obtain ⟨cs, rfl⟩ := hq
    obtain ⟨s, r, hr⟩ := exists_readQuoted? ht
    simp only [scanField, List.cons_append, hr, readQuoted?_append hr]
    split
    · rfl
    · cases fieldToken name s ('"' :: (s ++ ['"'])) true <;> rfl
  · have ht' : ∀ cs, t ++ b :: u ≠ '"' :: cs := by
      intro cs h
      cases t with
      | nil => exact ne_of_isBlank hb (by decide : Text.isBlank '"' = false) (List.cons.inj h).1
      | cons c t => exact hq ⟨t, by rw [(List.cons.inj h).1]⟩
    rw [scanField_bare ht', scanField_bare fun cs h => hq ⟨cs, h⟩, readBare_append_blank hb]
    dsimp only
    split
    · rfl
    · cases fieldToken name (readBare t).1 (readBare t).1 false <;> rfl

theorem scanTerm_append (hb : Text.isBlank b = true) (excluded : Bool) {c : Char} {t : Text}
    (ht : Text.Balanced (c :: t)) (u : Text) :
    scanTerm excluded (c :: t ++ b :: u) =
      (scanTerm excluded (c :: t)).map (before (b :: u)) := by
  by_cases hc : c = '"'
  · subst hc
    obtain ⟨s, r, hr⟩ := exists_readQuoted? ht
    simp only [scanTerm, scanPhrase, List.cons_append, hr, readQuoted?_append hr]
    split <;> rfl
  · rw [scanTerm_bare (by simp [hc]), scanTerm_bare (by simp [hc]), readFieldName?_append hb,
      readBare_append_blank hb]
    cases hn : readFieldName? (c :: t) with
    | none => rfl
    | some p =>
      obtain ⟨name, r⟩ := p
      obtain ⟨hname, hr⟩ := readFieldName?_eq_some_iff.mp hn
      have hbal : r.Balanced := by
        rw [hr, Text.Balanced.append_iff (Text.balanced_of_not_mem hname.quote_notMem),
          Text.balanced_cons_iff (by decide)] at ht
        exact ht
      exact scanField_append hb name hbal u

/-- A token is read in the same way, or refused for the same reason, if a blank and more text stand
behind. -/
theorem scanToken_append (hb : Text.isBlank b = true) {c : Char} {t : Text}
    (ht : Text.Balanced (c :: t)) (u : Text) :
    scanToken (c :: t ++ b :: u) = (scanToken (c :: t)).map (before (b :: u)) := by
  by_cases hc : c = '-'
  · subst hc
    cases t with
    | nil =>
      -- a hyphen before a blank is a word, as it is at the end of the text
      show scanToken ('-' :: b :: u) = _
      rw [scanToken, if_pos hb]
      exact scanTerm_append hb false ht u
    | cons d t =>
      have hd := (Text.balanced_cons_iff (by decide : '-' ≠ '"') (d :: t)).mp ht
      simp only [scanToken, List.cons_append]
      split
      · exact scanTerm_append hb false ht u
      · rw [← List.cons_append, scanTerm_append hb true hd u]
        cases scanTerm true (d :: t) <;> rfl
  · have hplain (s : Text) : scanToken (c :: s) = scanTerm false (c :: s) := by
      unfold scanToken
      split
      · exact absurd (List.cons.inj ‹_›).1 hc
      · rfl
    rw [List.cons_append, hplain, hplain, ← List.cons_append]
    exact scanTerm_append hb false ht u

def shift (k : Nat) (l : Lexeme) : Lexeme :=
  ⟨l.token, l.start + k, l.stop + k⟩

theorem scanFrom_error {n : Nat} {c : Char} {t : Text} {e : Failure}
    (hc : Text.isBlank c = false) (he : scanToken (c :: t) = .error e) :
    scanFrom n (c :: t) = .error e := by
  unfold scanFrom
  rw [dif_neg (by simp [hc])]
  split
  · rename_i h
    rw [Except.error.inj (h.symm.trans he)]
  · rename_i h
    simp [he] at h

theorem scanFrom_add (n k : Nat) (t : Text) :
    scanFrom (n + k) t = (scanFrom n t).map (List.map (shift k)) := by
  fun_induction scanFrom n t with
  | case1 n =>
    rw [scanFrom_nil]
    rfl
  | case2 n c cs hc ih => rw [scanFrom_blank hc, Nat.add_right_comm, ih]
  | case3 n c cs hc e he =>
    rw [scanFrom_error (by simpa using hc) he]
    rfl
  | case4 n c cs hc token rest hk stop ih =>
    rw [scanFrom_token (by simpa using hc) hk, Nat.add_right_comm, ih]
    cases scanFrom stop rest <;> rfl

/-- The scan of two texts with a blank between them is that of the first and then that of the
second, which is not looked at if the first is refused. -/
theorem scanFrom_append (hb : Text.isBlank b = true) (n : Nat) {t : Text} (ht : t.Balanced)
    (u : Text) :
    scanFrom n (t ++ b :: u) =
      (scanFrom n t).bind fun ls => (scanFrom (n + t.length + 1) u).map (ls ++ ·) := by
  -- along the scan of the first text, whose rest has paired quotes at every step
  fun_induction scanFrom n t with
  | case1 n =>
    rw [List.nil_append, scanFrom_blank hb]
    cases scanFrom (n + 1) u <;> rfl
  | case2 n c cs hc ih =>
    have hcs := (Text.balanced_cons_iff (ne_of_isBlank hc (by decide)) cs).mp ht
    rw [List.cons_append, scanFrom_blank hc, ih hcs]
    simp only [List.length_cons]
    rw [show n + 1 + cs.length + 1 = n + (cs.length + 1) + 1 by omega]
  | case3 n c cs hc e he =>
    have happ := scanToken_append hb ht u
    rw [he] at happ
    exact scanFrom_error (by simpa using hc) happ
  | case4 n c cs hc token rest hk stop ih =>
    have hc : Text.isBlank c = false := by simpa using hc
    have happ : scanToken (c :: (cs ++ b :: u)) = .ok (token, rest ++ b :: u) := by
      rw [← List.cons_append, scanToken_append hb ht u, hk]
      rfl
    obtain ⟨s, hs, hbal, -⟩ := scanToken_spelled hk
    have hrest : rest.Balanced := by
      rw [hs] at ht
      exact (hbal.append_iff _).mp ht
    have hlen := scanToken_length hc hk
    have hstop : n + ((c :: (cs ++ b :: u)).length - (rest ++ b :: u).length) = stop := by
      simp only [stop, List.length_cons, List.length_append]
      omega
    have hnext : stop + rest.length + 1 = n + (c :: cs).length + 1 := by
      simp only [stop, List.length_cons] at hlen ⊢
      omega
    rw [List.cons_append, scanFrom_token hc happ, hstop, ih hrest, hnext]
    cases scanFrom stop rest with
    | error e => rfl
    | ok ls => cases scanFrom (n + (c :: cs).length + 1) u <;> rfl

theorem ofText_append_blanks {p q w : Text} (hp : p.Balanced) (hq : q.Balanced) (hne : w ≠ [])
    (hw : ∀ c ∈ w, Text.isBlank c = true) :
    ofText (p ++ (w ++ q)) = (ofText p).bind fun ls =>
      (ofText q).map fun ms => ls ++ ms.map (shift (p.length + w.length)) := by
  obtain ⟨b, w, rfl⟩ := List.exists_cons_of_ne_nil hne
  obtain ⟨hb, hw⟩ := List.forall_mem_cons.mp hw
  have hwq : Text.Balanced (w ++ q) := by
    rw [Text.Balanced.append_iff (Text.balanced_of_not_mem fun hm => ?_)]
    · exact hq
    · simpa [show Text.isBlank '"' = false by decide] using hw _ hm
  have hall : Text.Balanced (p ++ (b :: w ++ q)) := by
    rw [hp.append_iff, List.cons_append, Text.balanced_cons_iff (ne_of_isBlank hb (by decide))]
    exact hwq
  rw [ofText_of_balanced hall, ofText_of_balanced hp, ofText_of_balanced hq, List.cons_append,
    scanFrom_append hb 0 hp, scanFrom_blanks hw, List.length_cons,
    show 0 + p.length + 1 + w.length = 0 + (p.length + (w.length + 1)) by omega, scanFrom_add]
  cases scanFrom 0 p with
  | error e => rfl
  | ok ls => cases scanFrom 0 q <;> rfl

theorem ofText_append {p q : Text} {ls ms : List Lexeme} (hb : Text.isBlank b = true)
    (hp : ofText p = .ok ls) (hq : ofText q = .ok ms) :
    ofText (p ++ b :: q) = .ok (ls ++ ms.map (shift (p.length + 1))) := by
  have hsingle : ∀ c ∈ [b], Text.isBlank c = true := by simpa using hb
  have happ := ofText_append_blanks (ofText_eq_ok_iff.mp hp).1 (ofText_eq_ok_iff.mp hq).1
    (List.cons_ne_nil b []) hsingle
  rw [hp, hq] at happ
  exact happ

theorem map_token_shift (k : Nat) (ls : List Lexeme) :
    (ls.map (shift k)).map (·.token) = ls.map (·.token) := by
  simp [shift, Function.comp_def]

/-- Texts with paired quotes and blanks between them are cut into tokens one by one: the first error
is the error of the whole, with the text that it complains of, and without an error the tokens of
the second text follow those of the first, as many places further on as it starts. -/
theorem tokens_of_texts_apart {p q w : Text} (hp : p.count '"' % 2 = 0) (hq : q.count '"' % 2 = 0)
    (hne : w ≠ []) (hw : ∀ c ∈ w, Text.isBlank c = true) :
    (∀ e, ofText p = .error e → ofText (p ++ w ++ q) = .error e) ∧
    (∀ ls e, ofText p = .ok ls → ofText q = .error e → ofText (p ++ w ++ q) = .error e) ∧
    ∀ ls ms, ofText p = .ok ls → ofText q = .ok ms →
      ofText (p ++ w ++ q) = .ok (ls ++ ms.map (shift (p.length + w.length))) := by
  rw [List.append_assoc, ofText_append_blanks hp hq hne hw]
  refine ⟨fun e he => ?_, fun ls e hls he => ?_, fun ls ms hls hms => ?_⟩
  · rw [he]
    rfl
  · rw [hls, he]
    rfl
  · rw [hls, hms]
    rfl

/-- A hyphen or a colon at the end of a text does not reach the text after a blank. -/
theorem tokens_of_texts_apart_hyphen_colon :
    ofText ("\"a b\" -".toList ++ "\t ".toList ++ "c".toList) =
        .ok [⟨.phrase "a b".toList, 0, 5⟩, ⟨.word ['-'], 6, 7⟩, ⟨.word ['c'], 9, 10⟩] ∧
      ofText ("title:".toList ++ [' '] ++ "\"a b\" -".toList) =
        .error (.malformed (.emptyFieldValue "title".toList)) := by
  have hhyphen : ofText "\"a b\" -".toList =
      .ok [⟨.phrase "a b".toList, 0, 5⟩, ⟨.word ['-'], 6, 7⟩] :=
    ofText_ok rfl (scanFrom_token_ok rfl rfl rfl
      ((scanFrom_blank rfl).trans (scanFrom_token_ok rfl rfl rfl (scanFrom_nil 7))))
  have hc : ofText "c".toList = .ok [⟨.word ['c'], 0, 1⟩] :=
    ofText_ok rfl (scanFrom_token_ok rfl rfl rfl (scanFrom_nil 1))
  have htitle : Text.Balanced "title:".toList := rfl
  have hcolon : ofText "title:".toList = .error (.malformed (.emptyFieldValue "title".toList)) :=
    (ofText_of_balanced htitle).trans (scanFrom_error rfl rfl)
  have htab : ∀ c ∈ "\t ".toList, Text.isBlank c = true := List.all_eq_true.mp rfl
  have hspace : ∀ c ∈ [' '], Text.isBlank c = true := List.all_eq_true.mp rfl
  exact ⟨(tokens_of_texts_apart rfl rfl (by decide) htab).2.2 _ _ hhyphen hc,
    (tokens_of_texts_apart rfl rfl (by decide) hspace).1 _ hcolon⟩

end ArticleArchive.Lexeme
