import ArticleArchive.Json.Reader
import ArticleArchive.Proofs.Results
import ArticleArchive.Proofs.Text.Trim

namespace ArticleArchive.Json

/-- The code unit at the front of a text is the second half of a pair that `u` begins. -/
def PairFollows (u : Nat) (t : Text) : Prop :=
  ∃ e f g k ds v, t = '\\' :: 'u' :: e :: f :: g :: k :: ds ∧ unit? e f g k = some v ∧
    (isHighSurrogate u && isLowSurrogate v) = true

theorem readText_unit {a b c d : Char} {u : Nat} {t : Text} (hu : unit? a b c d = some u)
    (ht : ¬ PairFollows u t) :
    readText ('\\' :: 'u' :: a :: b :: c :: d :: t) = consRead (unitChar u) (readText t) := by
  rw [readText]
  simp only [hu]
  split
  · rename_i e f g k ds
    split
    · rename_i hv
      rw [readText]
      simp [hv, consRead]
    · rename_i v hv
      rw [if_neg fun hpair => ht ⟨e, f, g, k, ds, v, rfl, hv, hpair⟩]
  · rfl

theorem consRead_eq_some_iff {c : Char} {o : Option (Text × Text)} {s r : Text} :
    consRead c o = some (s, r) ↔ ∃ s', o = some (s', r) ∧ c :: s' = s := by
  simp [consRead]

theorem exists_of_append_eq_unit {p u s ds : Text} {e f g k : Char}
    (hp : readText p = some (s, [])) (h : p ++ u = '\\' :: 'u' :: e :: f :: g :: k :: ds) :
    ∃ q, p = '\\' :: 'u' :: e :: f :: g :: k :: q := by
  match p with
  | [] => simp [readText] at hp
  | [_] => simp_all [readText]
  | [_, _] => simp_all [readText, simpleEscape?]
  | [_, _, _] => simp_all [readText, simpleEscape?]
  | [_, _, _, _] => simp_all [readText, simpleEscape?]
  | [_, _, _, _, _] => simp_all [readText, simpleEscape?]
  | _ :: _ :: _ :: _ :: _ :: _ :: q => exact ⟨q, by simp_all⟩

theorem readText_unit_append {a b c d : Char} {u : Nat} {p r s : Text}
    (hu : unit? a b c d = some u) (hr : ¬ PairFollows u (p ++ r))
    (hp : ∀ w, readText (p ++ w) = some (s, w)) (w : Text) :
    readText ('\\' :: 'u' :: a :: b :: c :: d :: (p ++ w)) = some (unitChar u :: s, w) := by
  rw [readText_unit hu, hp w]
  · rfl
  · rintro ⟨e, f, g, k, ds, v, he, hv, hpair⟩
    obtain ⟨q, rfl⟩ := exists_of_append_eq_unit (by simpa using hp []) he
    exact hr ⟨e, f, g, k, q ++ r, v, rfl, hv, hpair⟩

theorem exists_readText {t s r : Text} (h : readText t = some (s, r)) :
    ∃ p, t = p ++ r ∧ ∀ u, readText (p ++ u) = some (s, u) := by
  fun_induction readText t generalizing s with
  | case1 => simp at h
  | case2 cs =>
    obtain ⟨rfl, rfl⟩ : [] = s ∧ cs = r := by simpa using h
    exact ⟨['"'], rfl, fun u => rfl⟩
  | case3 => simp at h
  | case4 => simp at h
  -- an escape that makes one character with the next, one that does not, and one before none
  | case5 a b c d u hu e f g k ds v hv hs ih =>
    obtain ⟨s', hr, rfl⟩ := consRead_eq_some_iff.mp h
    obtain ⟨p, rfl, hp⟩ := ih hr
    refine ⟨['\\', 'u', a, b, c, d, '\\', 'u', e, f, g, k] ++ p, rfl, fun w => ?_⟩
    simp only [List.cons_append, List.nil_append]
    rw [readText]
    simp [hu, hv, hs, hp w, consRead]
  | case6 a b c d u hu e f g k ds v hv hs ih =>
    obtain ⟨s', hr, rfl⟩ := consRead_eq_some_iff.mp h
    obtain ⟨p, hds, hp⟩ := ih hr
    have hno : ¬ PairFollows u (p ++ r) := by
      rw [← hds]
      rintro ⟨_, _, _, _, _, v', ⟨⟩, hv', hpair⟩
      obtain rfl : v = v' := Option.some.inj (hv.symm.trans hv')
      exact hs hpair
    exact ⟨['\\', 'u', a, b, c, d] ++ p, by rw [hds]; rfl, readText_unit_append hu hno hp⟩
  | case7 a b c d u hu cs hne ih =>
    obtain ⟨s', hr, rfl⟩ := consRead_eq_some_iff.mp h
    obtain ⟨p, rfl, hp⟩ := ih hr
    have hno : ¬ PairFollows u (p ++ r) := fun ⟨e, f, g, k, ds, _, he, _⟩ => hne e f g k ds he
    exact ⟨['\\', 'u', a, b, c, d] ++ p, rfl, readText_unit_append hu hno hp⟩
  | case8 => simp at h
  | case9 c cs hc e he ih =>
    obtain ⟨s', hr, rfl⟩ := consRead_eq_some_iff.mp h
    obtain ⟨p, rfl, hp⟩ := ih hr
    refine ⟨['\\', c] ++ p, rfl, fun w => ?_⟩
    simp only [List.cons_append, List.nil_append]
    rw [readText]
    · simp [he, hp w, consRead]
    · rintro _ _ _ _ _ rfl -
      simp [simpleEscape?] at he
  | case10 => simp at h
  | case11 c cs hquote _ _ hc ih =>
    obtain ⟨s', hr, rfl⟩ := consRead_eq_some_iff.mp h
    obtain ⟨p, rfl, hp⟩ := ih hr
    obtain ⟨hbackslash, -⟩ := not_or.mp hc
    refine ⟨c :: p, rfl, fun w => ?_⟩
    rw [List.cons_append, readText, if_neg hc]
    · simp [hp w, consRead]
    · exact hquote
    · exact fun _ _ _ _ _ he _ => hbackslash he
    · exact fun _ _ he _ => hbackslash he

/-- The character continues no numeral that ends before it. -/
def EndsNumeral (c : Char) : Prop :=
  c.isDigit = false ∧ c ≠ '.' ∧ c ≠ 'e' ∧ c ≠ 'E'

def EndsDigits (u : Text) : Prop :=
  ∀ d ∈ u.head?, d.isDigit = false

def EndsNumerals (u : Text) : Prop :=
  ∀ d ∈ u.head?, EndsNumeral d

theorem EndsNumerals.digits {u : Text} (h : EndsNumerals u) : EndsDigits u :=
  fun d hd => (h d hd).1

theorem ne_of_isDigit {c d : Char} (hc : c.isDigit = true) (hd : d.isDigit = false) : c ≠ d := by
  rintro rfl
  simp [hc] at hd

theorem readWhole?_eq_some {t whole r : Text} (h : readWhole? t = some (whole, r)) :
    t = whole ++ r ∧ ∀ c ∈ whole, c.isDigit = true := by
  unfold readWhole? at h
  split at h
  · obtain ⟨rfl, rfl⟩ := Prod.mk.inj (Option.some.inj h)
    exact ⟨rfl, by simp⟩
  · split at h
    · obtain ⟨rfl, rfl⟩ := Prod.mk.inj (Option.some.inj h)
      exact ⟨List.takeWhile_append_dropWhile.symm, fun c hc => List.mem_takeWhile_imp hc⟩
    · simp at h
  · simp at h

theorem readWhole?_append {c : Char} {ds r : Text} (hc : c ≠ '0')
    (hdigits : ∀ d ∈ c :: ds, d.isDigit = true) (hr : ∀ d ∈ r.head?, d.isDigit = false) :
    readWhole? (c :: ds ++ r) = some (c :: ds, r) := by
  obtain ⟨htake, hdrop⟩ := Text.span_iff.mpr ⟨rfl, hdigits, hr⟩
  rw [List.cons_append] at *
  unfold readWhole?
  split
  · rename_i he
    exact absurd (List.cons.inj he).1 hc
  · rename_i he
    rw [← he, htake, hdrop, ← (List.cons.inj he).1, if_pos (hdigits c List.mem_cons_self)]
  · rename_i he
    exact absurd he (List.cons_ne_nil _ _)

theorem exists_readWhole? {t whole r : Text} (h : readWhole? t = some (whole, r)) :
    t = whole ++ r ∧ (∃ d ds, whole = d :: ds ∧ d.isDigit = true) ∧
      ∀ u, EndsDigits u → readWhole? (whole ++ u) = some (whole, u) := by
  obtain ⟨rfl, hdigits⟩ := readWhole?_eq_some h
  refine ⟨rfl, ?_⟩
  unfold readWhole? at h
  split at h
  · rename_i he
    obtain ⟨rfl, -⟩ : ['0'] = whole ∧ _ := by simpa using h
    exact ⟨⟨'0', [], rfl, rfl⟩, fun u _ => rfl⟩
  · rename_i c cs hzero he
    split at h
    · rename_i hc
      obtain ⟨rfl, -⟩ : c :: cs.takeWhile Char.isDigit = whole ∧ _ := by simpa [hc] using h
      exact ⟨⟨c, _, rfl, hc⟩, fun u hu => readWhole?_append hzero hdigits hu⟩
    · simp at h
  · simp at h

theorem readFraction_of_head {u : Text} (h : '.' ∉ u.head?) : readFraction u = ([], u) := by
  unfold readFraction
  split
  · exact absurd rfl h
  · rfl

theorem exists_readFraction {t digits r : Text} (h : readFraction t = (digits, r)) :
    ∃ p, t = p ++ r ∧ (∀ d ∈ p.head?, d = '.') ∧
      ∀ u, EndsDigits u → '.' ∉ u.head? → readFraction (p ++ u) = (digits, u) := by
  have absent (h : ([], t) = (digits, r)) : ∃ p, t = p ++ r ∧ (∀ d ∈ p.head?, d = '.') ∧
      ∀ u, EndsDigits u → '.' ∉ u.head? → readFraction (p ++ u) = (digits, u) := by
    obtain ⟨rfl, rfl⟩ := Prod.mk.inj h
    exact ⟨[], rfl, by simp, fun u _ hu => readFraction_of_head hu⟩
  unfold readFraction at h
  split at h
  · rename_i c cs
    split at h
    · rename_i hc
      obtain ⟨htake, hdrop⟩ := Prod.mk.inj h
      obtain ⟨hspan, hdigits, -⟩ := Text.span_iff.mp ⟨htake, hdrop⟩
      refine ⟨'.' :: digits, by rw [hspan]; rfl, by simp, fun u hu _ => ?_⟩
      rw [List.takeWhile_cons_of_pos hc] at htake
      subst htake
      obtain ⟨htake', hdrop'⟩ := Text.span_iff.mpr ⟨rfl, hdigits, hu⟩
      simp only [List.cons_append] at htake' hdrop' ⊢
      rw [readFraction, if_pos hc, htake', hdrop']
    · exact absent h
  · exact absent h

def readSigned (negative : Bool) (t ds : Text) : Option Int × Text :=
  match ds.takeWhile Char.isDigit with
  | [] => (none, t)
  | power =>
    (some (if negative then -(Text.asciiValue power : Int) else Text.asciiValue power),
      ds.dropWhile Char.isDigit)

theorem readSigned_cases (negative : Bool) (ds : Text) :
    (∀ t, readSigned negative t ds = (none, t)) ∨
      ∃ d power r n, ds = d :: power ++ r ∧ d.isDigit = true ∧
        (∀ t, readSigned negative t ds = (some n, r)) ∧
        ∀ t u, EndsDigits u → readSigned negative t (d :: power ++ u) = (some n, u) := by
  cases htake : ds.takeWhile Char.isDigit with
  | nil => exact .inl fun t => by rw [readSigned, htake]
  | cons d power =>
    obtain ⟨hspan, hdigits, -⟩ := Text.span_iff.mp ⟨htake, rfl⟩
    refine .inr ⟨d, power, _, _, hspan, hdigits d List.mem_cons_self,
      fun t => by rw [readSigned, htake], fun t u hu => ?_⟩
    obtain ⟨htake', hdrop'⟩ := Text.span_iff.mpr ⟨rfl, hdigits, hu⟩
    rw [readSigned, htake', hdrop']

theorem readPower_unsigned {ds : Text} (hminus : ∀ r, ds ≠ '-' :: r) (hplus : ∀ r, ds ≠ '+' :: r)
    (t : Text) : readPower t ds = readSigned false t ds := by
  unfold readPower
  dsimp only
  split
  · exact absurd rfl (hminus _)
  · exact absurd rfl (hplus _)
  · rfl

theorem readPower_cases (ds : Text) :
    (∀ t, readPower t ds = (none, t)) ∨
      ∃ p r n, ds = p ++ r ∧ (∀ t, readPower t ds = (some n, r)) ∧
        ∀ t u, EndsDigits u → readPower t (p ++ u) = (some n, u) := by
  by_cases hminus : ∃ r, ds = '-' :: r
  · obtain ⟨ds, rfl⟩ := hminus
    rcases readSigned_cases true ds with hnone | ⟨d, power, r, n, rfl, -, hn, hu⟩
    · exact .inl hnone
    · exact .inr ⟨'-' :: d :: power, r, n, rfl, hn, hu⟩
  · by_cases hplus : ∃ r, ds = '+' :: r
    · obtain ⟨ds, rfl⟩ := hplus
      rcases readSigned_cases false ds with hnone | ⟨d, power, r, n, rfl, -, hn, hu⟩
      · exact .inl hnone
      · exact .inr ⟨'+' :: d :: power, r, n, rfl, hn, hu⟩
    · have hbare := readPower_unsigned (fun r hr => hminus ⟨r, hr⟩) fun r hr => hplus ⟨r, hr⟩
      rcases readSigned_cases false ds with hnone | ⟨d, power, r, n, rfl, hd, hn, hu⟩
      · exact .inl fun t => (hbare t).trans (hnone t)
      · refine .inr ⟨d :: power, r, n, rfl, fun t => (hbare t).trans (hn t), fun t u he => ?_⟩
        have hsign (s : Char) (hs : s.isDigit = false) (q : Text) : d :: power ++ u ≠ s :: q :=
          fun he => ne_of_isDigit hd hs (List.cons.inj he).1
        rw [readPower_unsigned (hsign '-' rfl) (hsign '+' rfl)]
        exact hu t u he

theorem readExponent_of_head {u : Text} (h : 'e' ∉ u.head?) (hupper : 'E' ∉ u.head?) :
    readExponent u = (none, u) := by
  unfold readExponent
  split
  · exact absurd rfl h
  · exact absurd rfl hupper
  · rfl

theorem exists_readExponent {t r : Text} {power : Option Int} (h : readExponent t = (power, r)) :
    ∃ p, t = p ++ r ∧ (∀ d ∈ p.head?, d = 'e' ∨ d = 'E') ∧
      ∀ u, EndsNumerals u → readExponent (p ++ u) = (power, u) := by
  have absent (h : (none, t) = (power, r)) : ∃ p, t = p ++ r ∧
      (∀ d ∈ p.head?, d = 'e' ∨ d = 'E') ∧
      ∀ u, EndsNumerals u → readExponent (p ++ u) = (power, u) := by
    obtain ⟨rfl, rfl⟩ := Prod.mk.inj h
    refine ⟨[], rfl, by simp, fun u hu => readExponent_of_head (fun he => ?_) fun he => ?_⟩
    · exact (hu 'e' he).2.2.1 rfl
    · exact (hu 'E' he).2.2.2 rfl
  unfold readExponent at h
  split at h
  · rename_i cs
    rcases readPower_cases cs with hnone | ⟨p, r', n, rfl, hn, hu⟩
    · exact absent ((hnone _).symm.trans h)
    · obtain ⟨rfl, rfl⟩ := Prod.mk.inj ((hn _).symm.trans h)
      exact ⟨'e' :: p, rfl, by simp, fun u he => hu _ u he.digits⟩
  · rename_i cs
    rcases readPower_cases cs with hnone | ⟨p, r', n, rfl, hn, hu⟩
    · exact absent ((hnone _).symm.trans h)
    · obtain ⟨rfl, rfl⟩ := Prod.mk.inj ((hn _).symm.trans h)
      exact ⟨'E' :: p, rfl, by simp, fun u he => hu _ u he.digits⟩
  · exact absent h

theorem mem_head?_append {p u : Text} {d : Char} (h : d ∈ (p ++ u).head?) :
    d ∈ p.head? ∨ d ∈ u.head? := by
  cases p with
  | nil => exact .inr h
  | cons c p => exact .inl h

def magnitude (negative : Bool) (whole fraction : Text) (exponent : Option Int) :
    Except Unreadable Json :=
  if fraction.isEmpty && exponent.isNone then
    if Text.maxDigits < whole.length then .error .longNumeral
    else .ok (.int (if negative then -Text.asciiValue whole else Text.asciiValue whole))
  else .ok (.float (.ofDecimal negative (Text.asciiValue (whole ++ fraction))
    (exponent.getD 0 - fraction.length)))

theorem readMagnitude_eq {t whole fraction r r' r'' : Text} {exponent : Option Int}
    (hw : readWhole? t = some (whole, r)) (hf : readFraction r = (fraction, r'))
    (he : readExponent r' = (exponent, r'')) (negative : Bool) :
    readMagnitude negative t = (magnitude negative whole fraction exponent).map (·, r'') := by
  simp only [readMagnitude, hw, hf, he, magnitude]
  split
  · split <;> rfl
  · rfl

theorem exists_readMagnitude {negative : Bool} {t r : Text} {v : Json}
    (h : readMagnitude negative t = .ok (v, r)) :
    ∃ d p, t = d :: p ++ r ∧ d.isDigit = true ∧
      ∀ u, EndsNumerals u → readMagnitude negative (d :: p ++ u) = .ok (v, u) := by
  cases hw : readWhole? t with
  | none => simp [readMagnitude, hw] at h
  | some q =>
    obtain ⟨whole, r₁⟩ := q
    cases hf : readFraction r₁ with
    | mk fraction r₂ =>
      cases he : readExponent r₂ with
      | mk exponent r₃ =>
        rw [readMagnitude_eq hw hf he] at h
        obtain ⟨v, hv, hpair⟩ := map_eq_ok_iff.mp h
        obtain ⟨rfl, rfl⟩ := Prod.mk.inj hpair
        obtain ⟨rfl, ⟨d, ds, rfl, hd⟩, hwhole⟩ := exists_readWhole? hw
        obtain ⟨p, rfl, hp, hfraction⟩ := exists_readFraction hf
        obtain ⟨q, rfl, hq, hexponent⟩ := exists_readExponent he
        refine ⟨d, ds ++ p ++ q, by simp, hd, fun u hu => ?_⟩
        -- a point ends the digits before it, an exponent those before it and the fraction
        have hafter : ∀ c ∈ (q ++ u).head?, c.isDigit = false ∧ c ≠ '.' := by
          intro c hc
          rcases mem_head?_append hc with hc | hc
          · rcases hq c hc with rfl | rfl <;> decide
          · exact ⟨(hu c hc).1, (hu c hc).2.1⟩
        have hpoint : EndsDigits (p ++ (q ++ u)) := by
          intro c hc
          rcases mem_head?_append hc with hc | hc
          · rw [hp c hc]
            rfl
          · exact (hafter c hc).1
        have hnumber := readMagnitude_eq (hwhole _ hpoint)
          (hfraction _ (fun c hc => (hafter c hc).1) fun hc => (hafter '.' hc).2 rfl)
          (hexponent u hu) negative
        rw [hv] at hnumber
        simpa [Except.map] using hnumber

theorem find_literals {l : Text × Json} (hl : l ∈ literals) (u : Text) :
    literals.find? (fun m => m.1.isPrefixOf (l.1 ++ u)) = some l := by
  simp only [literals, List.mem_cons, List.not_mem_nil, or_false] at hl
  rcases hl with rfl | rfl | rfl | rfl | rfl | rfl <;> rfl

theorem find_literals_of_isDigit {d : Char} (hd : d.isDigit = true) (t : Text) :
    literals.find? (fun l => l.1.isPrefixOf (d :: t)) = none := by
  have hne (c : Char) (hc : c.isDigit = false) : c ≠ d := (ne_of_isDigit hd hc).symm
  simp [literals, hne 'n' rfl, hne 't' rfl, hne 'f' rfl, hne 'N' rfl, hne 'I' rfl, hne '-' rfl]

theorem find_literals_minus {d : Char} (hd : d.isDigit = true) (t : Text) :
    literals.find? (fun l => l.1.isPrefixOf ('-' :: d :: t)) = none := by
  simp [literals, (ne_of_isDigit hd (rfl : 'I'.isDigit = false)).symm]

theorem exists_readPlain {t r : Text} {v : Json} (h : readPlain t = .ok (v, r)) :
    ∃ p, t = p ++ r ∧ p ≠ [] ∧ ∀ u, EndsNumerals u → readPlain (p ++ u) = .ok (v, u) := by
  unfold readPlain at h
  split at h
  · -- a word that stands for a value; no other one starts in the same way
    rename_i word v' hfind
    obtain ⟨rfl, rfl⟩ : v' = v ∧ t.drop word.length = r := by simpa using h
    have hl := List.mem_of_find?_eq_some hfind
    have hprefix : word.isPrefixOf t = true := by simpa using List.find?_some hfind
    obtain ⟨r, rfl⟩ := List.isPrefixOf_iff_prefix.mp hprefix
    have hne : ∀ l ∈ literals, l.1 ≠ [] := by simp [literals]
    refine ⟨word, by simp, hne _ hl, fun u _ => ?_⟩
    unfold readPlain
    rw [find_literals hl u]
    simp
  · split at h
    · obtain ⟨d, p, rfl, hd, hp⟩ := exists_readMagnitude h
      refine ⟨'-' :: d :: p, rfl, List.cons_ne_nil _ _, fun u hu => ?_⟩
      have hfind := find_literals_minus hd (p ++ u)
      simp only [List.cons_append] at hfind ⊢
      rw [readPlain, hfind]
      exact hp u hu
    · obtain ⟨d, p, rfl, hd, hp⟩ := exists_readMagnitude h
      refine ⟨d :: p, rfl, List.cons_ne_nil _ _, fun u hu => ?_⟩
      have hfind := find_literals_of_isDigit hd (p ++ u)
      have hminus : ∀ cs, d :: p ++ u ≠ '-' :: cs :=
        fun cs he => ne_of_isDigit hd rfl (List.cons.inj he).1
      rw [← List.cons_append] at hfind
      rw [readPlain, hfind]
      · exact hp u hu
      · exact hminus

end ArticleArchive.Json
