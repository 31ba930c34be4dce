import ArticleArchive.Proofs.Query.Spelling

namespace ArticleArchive

/-- A result that is no fault: a value, or a rejection with its reason. -/
def NoFault {α : Type} (r : Except Failure α) : Prop :=
  ∀ f, r ≠ .error (.fault f)

namespace NoFault

variable {α β : Type}

theorem bind {r : Except Failure α} {g : α → Except Failure β} (h : NoFault r)
    (hg : ∀ a, r = .ok a → NoFault (g a)) : NoFault (r >>= g) := by
  cases r with
  | error e =>
    intro f hf
    cases hf
    exact h f rfl
  | ok a => exact hg a rfl

theorem ok_or_rejected {r : Except Failure α} (h : NoFault r) :
    (∃ a, r = .ok a) ∨ ∃ e, r = .error (.rejected e) := by
  cases r with
  | ok a => exact .inl ⟨a, rfl⟩
  | error e =>
    cases e with
    | rejected e => exact .inr ⟨e, rfl⟩
    | fault f => exact absurd rfl (h f)

end NoFault

/-- A result that is a value or a complaint about the form of a query. -/
def ComplainsOfForm {α : Type} (r : Except Failure α) : Prop :=
  ∀ e, r = .error e → ∃ m, e = .malformed m

namespace ComplainsOfForm

variable {α β : Type} {r : Except Failure α}

theorem ok (a : α) : ComplainsOfForm (.ok a) := nofun

theorem malformed (m : SyntaxError) :
    ComplainsOfForm (.error (.malformed m) : Except Failure α) := by
  rintro e ⟨⟩
  exact ⟨m, rfl⟩

theorem map (h : ComplainsOfForm r) (g : α → β) : ComplainsOfForm (r.map g) := by
  intro e he
  cases r with
  | error e' =>
    obtain rfl : e' = e := by simpa [Except.map] using he
    exact h e' rfl
  | ok a => simp [Except.map] at he

theorem noFault (h : ComplainsOfForm r) : NoFault r := by
  intro f hf
  obtain ⟨m, hm⟩ := h _ hf
  simp [Failure.malformed] at hm

end ComplainsOfForm

namespace Lexeme

theorem exists_readQuoted? {t : Text} (h : Text.Balanced ('"' :: t)) :
    ∃ s r, readQuoted? t = some (s, r) := by
  cases hq : readQuoted? t with
  | none => exact absurd h (Text.not_balanced_quote_cons (readQuoted?_eq_none_iff.mp hq))
  | some p => exact ⟨p.1, p.2, rfl⟩

theorem complainsOfForm_scanPhrase {t : Text} (h : Text.Balanced ('"' :: t)) :
    ComplainsOfForm (scanPhrase t) := by
  obtain ⟨s, r, hq⟩ := exists_readQuoted? h
  simp only [scanPhrase, hq]
  split
  · exact .malformed _
  · exact .ok _

theorem complainsOfForm_dateToken (value : Text) : ComplainsOfForm (dateToken value) := by
  unfold dateToken
  split
  · split
    · exact .malformed _
    · exact .ok _
  · split
    · split
      · exact .malformed _
      · exact .ok _
    · exact .ok _

theorem complainsOfForm_numberToken (name value : Text) :
    ComplainsOfForm (numberToken name value) := by
  unfold numberToken
  split
  · split
    · exact .malformed _
    · exact .ok _
  · exact .ok _

theorem complainsOfForm_fieldToken (name value written : Text) (quoted : Bool) :
    ComplainsOfForm (fieldToken name value written quoted) := by
  unfold fieldToken
  split
  · split
    · exact .ok _
    · exact .malformed _
  · split
    · exact complainsOfForm_dateToken value
    · split
      · exact complainsOfForm_numberToken name value
      · exact .ok _

theorem complainsOfForm_scanField (name : Text) {t : Text} (h : t.Balanced) :
    ComplainsOfForm (scanField name t) := by
  have finish (value written rest : Text) (quoted : Bool) :
      ComplainsOfForm (if value.isEmpty = true then .error (.malformed (.emptyFieldValue name))
        else (fieldToken name value written quoted).map fun token => (token, rest)) := by
    split
    · exact .malformed _
    · exact (complainsOfForm_fieldToken _ _ _ _).map _
  unfold scanField
  split
  · obtain ⟨s, r, hq⟩ := exists_readQuoted? h
    simp only [hq]
    exact finish _ _ _ _
  · exact finish _ _ _ _

theorem complainsOfForm_scanTerm (excluded : Bool) {t : Text} (h : t.Balanced) :
    ComplainsOfForm (scanTerm excluded t) := by
  unfold scanTerm
  split
  · exact complainsOfForm_scanPhrase h
  · split
    · rename_i name rest hn
      obtain ⟨hname, rfl⟩ := readFieldName?_eq_some_iff.mp hn
      rw [Text.Balanced.append_iff (Text.balanced_of_not_mem hname.quote_notMem),
        Text.balanced_cons_iff (by decide)] at h
      exact complainsOfForm_scanField name h
    · exact .ok _

theorem complainsOfForm_scanToken {t : Text} (h : t.Balanced) :
    ComplainsOfForm (scanToken t) := by
  unfold scanToken
  split
  · split
    · exact complainsOfForm_scanTerm false h
    · exact (complainsOfForm_scanTerm true ((Text.balanced_cons_iff (by decide) _).mp h)).map _
  · exact complainsOfForm_scanTerm false h

theorem scanFrom_nil (n : Nat) : scanFrom n [] = .ok [] := by
  unfold scanFrom
  rfl

theorem scanFrom_blank {n : Nat} {c : Char} {t : Text} (hc : Text.isBlank c = true) :
    scanFrom n (c :: t) = scanFrom (n + 1) t := by
  conv_lhs => unfold scanFrom
  rw [dif_pos hc]

theorem scanFrom_blanks {w : Text} (hw : ∀ c ∈ w, Text.isBlank c = true) (n : Nat) (t : Text) :
    scanFrom n (w ++ t) = scanFrom (n + w.length) t := by
  induction w generalizing n with
  | nil => rfl
  | cons c w ih =>
    obtain ⟨hc, hw⟩ := List.forall_mem_cons.mp hw
    rw [List.cons_append, scanFrom_blank hc, ih hw, List.length_cons, Nat.add_right_comm,
      Nat.add_assoc]

theorem scanFrom_token {n : Nat} {c : Char} {t rest : Text} {k : Token}
    (hc : Text.isBlank c = false) (hk : scanToken (c :: t) = .ok (k, rest)) :
    scanFrom n (c :: t) =
      (scanFrom (n + ((c :: t).length - rest.length)) rest).map
        (⟨k, n, n + ((c :: t).length - rest.length)⟩ :: ·) := by
  conv_lhs => unfold scanFrom
  rw [dif_neg (by simp [hc])]
  split
  · rename_i h
    simp [hk] at h
  · rename_i h
    rw [hk, Except.ok.injEq, Prod.mk.injEq] at h
    obtain ⟨rfl, rfl⟩ := h
    rfl

theorem scanFrom_token_ok {n m : Nat} {c : Char} {t rest : Text} {k : Token} {ls : List Lexeme}
    (hc : Text.isBlank c = false) (hk : scanToken (c :: t) = .ok (k, rest))
    (hm : n + ((c :: t).length - rest.length) = m) (h : scanFrom m rest = .ok ls) :
    scanFrom n (c :: t) = .ok (⟨k, n, m⟩ :: ls) := by
  rw [scanFrom_token hc hk, hm, h]
  rfl

theorem ofText_of_balanced {raw : Text} (h : raw.Balanced) : ofText raw = scanFrom 0 raw := by
  unfold Text.Balanced at h
  rw [ofText, if_neg (by omega)]

theorem ofText_eq_ok_iff {raw : Text} {ls : List Lexeme} :
    ofText raw = .ok ls ↔ raw.Balanced ∧ scanFrom 0 raw = .ok ls := by
  by_cases h : raw.Balanced
  · rw [ofText_of_balanced h, and_iff_right h]
  · have hodd : raw.count '"' % 2 = 1 := Nat.mod_two_ne_zero.mp h
    rw [ofText, if_pos hodd]
    exact iff_of_false nofun fun hb => h hb.1

theorem ofText_ok {raw : Text} {ls : List Lexeme} (hraw : raw.Balanced)
    (h : scanFrom 0 raw = .ok ls) : ofText raw = .ok ls :=
  ofText_eq_ok_iff.mpr ⟨hraw, h⟩

/-- The places that the scan of a query comes to, each with the text from there on. -/
inductive Reached (raw : Text) : Nat → Text → Prop
  | start : Reached raw 0 raw
  | blank {n : Nat} {c : Char} {t : Text} (h : Reached raw n (c :: t))
      (hc : Text.isBlank c = true) : Reached raw (n + 1) t
  | token {n : Nat} {c : Char} {t rest : Text} {k : Token} (h : Reached raw n (c :: t))
      (hc : Text.isBlank c = false) (hk : scanToken (c :: t) = .ok (k, rest)) :
      Reached raw (n + ((c :: t).length - rest.length)) rest

theorem Reached.balanced {raw t : Text} {n : Nat} (h : Reached raw n t) (hraw : raw.Balanced) :
    t.Balanced := by
  induction h with
  | start => exact hraw
  | blank _ hc ih =>
    refine (Text.balanced_cons_iff ?_ _).mp ih
    rintro rfl
    simp [show Text.isBlank '"' = false by decide] at hc
  | token _ _ hk ih =>
    obtain ⟨s, hs, hb, -⟩ := scanToken_spelled hk
    rw [hs] at ih
    exact (hb.append_iff _).mp ih

theorem exists_reached_of_scanFrom_error {raw t : Text} {n : Nat} {e : Failure}
    (hr : Reached raw n t) (h : scanFrom n t = .error e) :
    ∃ m c u, Reached raw m (c :: u) ∧ Text.isBlank c = false ∧
      scanToken (c :: u) = .error e := by
  fun_induction scanFrom n t with
  | case1 n => simp at h
  | case2 n c cs hc ih => exact ih (hr.blank hc) h
  | case3 n c cs hc e' he =>
    rw [Except.error.injEq] at h
    exact ⟨n, c, cs, hr, by simpa using hc, h ▸ he⟩
  | case4 n c cs hc k rest hk stop =>
    rename_i ih
    refine ih (hr.token (by simpa using hc) hk) ?_
    cases hs : scanFrom stop rest with
    | error e' => simpa [hs, Except.map] using h
    | ok ls => simp [hs, Except.map] at h

theorem complainsOfForm_ofText (raw : Text) : ComplainsOfForm (ofText raw) := by
  unfold ofText
  split
  · exact .malformed _
  · rename_i hb
    intro e he
    -- an error of the scan is one of a step, and the step starts where the quotes are paired
    obtain ⟨m, c, u, hr, -, hk⟩ := exists_reached_of_scanFrom_error .start he
    have hraw : raw.Balanced := by unfold Text.Balanced; omega
    exact complainsOfForm_scanToken (hr.balanced hraw) e hk

end Lexeme

end ArticleArchive
