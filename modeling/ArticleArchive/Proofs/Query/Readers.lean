import Mathlib.Data.List.Infix
import ArticleArchive.Proofs.Results
import ArticleArchive.Proofs.Text.Trim
import ArticleArchive.Query.Lexeme

namespace ArticleArchive

namespace Text

/-- A text that can stand between double quotes. -/
def Quotable (t : Text) : Prop :=
  t ≠ [] ∧ '"' ∉ t

def Plain (t : Text) : Prop :=
  t ≠ [] ∧ ∀ c ∈ t, Lexeme.isBareChar c = true

/-- A letter or an underscore, and after it letters, digits and underscores, all of them ASCII. -/
def IsName : Text → Prop
  | [] => False
  | c :: cs => Lexeme.isNameStart c = true ∧ ∀ d ∈ cs, Lexeme.isNameChar d = true

/-- A letter that passes for an `s` in a direction. -/
def longS : Char := '\u017F'

/-- What stands between the two ends of an interval of days. -/
def dots : Text := ['.', '.']

theorem Plain.quotable {t : Text} (h : t.Plain) : t.Quotable :=
  ⟨h.1, fun hm => absurd (h.2 _ hm) (by decide)⟩

theorem dots_infix_concat_iff {t : Text} :
    dots <:+: t ++ ['.'] ↔ dots <:+: t ∨ t.getLast? = some '.' := by
  rw [List.infix_concat_iff, or_comm, ← List.singleton_suffix_iff_getLast?_eq_some]
  refine or_congr_right ⟨fun h => ?_, fun ⟨s, hs⟩ => ⟨s, by simp [← hs, dots]⟩⟩
  obtain h | ⟨s, hs, hsuffix⟩ := List.suffix_concat_iff.mp h
  · simp [dots] at h
  · obtain rfl : ['.'] = s := (List.append_left_inj ['.']).mp hs
    exact hsuffix

theorem Quotable.append_ne_quote_cons {t : Text} (h : t.Quotable) (r s : Text) :
    t ++ r ≠ '"' :: s := by
  obtain ⟨c, t, rfl⟩ := List.exists_cons_of_ne_nil h.1
  intro he
  obtain ⟨rfl, -⟩ := List.cons.inj he
  exact h.2 List.mem_cons_self

theorem IsName.append_ne_cons {t : Text} (h : t.IsName) {c : Char}
    (hc : Lexeme.isNameStart c = false) (r s : Text) : t ++ r ≠ c :: s := by
  cases t with
  | nil => exact h.elim
  | cons d t =>
    intro he
    obtain ⟨rfl, -⟩ := List.cons.inj he
    exact absurd h.1 (by simp [hc])

theorem IsName.quote_notMem {t : Text} (h : t.IsName) : '"' ∉ t := by
  cases t with
  | nil => exact h.elim
  | cons c t =>
    rw [List.mem_cons, not_or]
    exact ⟨fun hc => absurd (hc ▸ h.1) (by decide), fun hm => absurd (h.2 _ hm) (by decide)⟩

end Text

namespace Comparison

/-- The marks that the language can write in front of a value. -/
def isInequality : Comparison → Bool
  | gt | ge | lt | le => true
  | eq | other _ => false

/-- A number that is compared for equality is written without a mark. -/
def written : Comparison → Text
  | eq => []
  | op => op.mark

/-- Whether the text after a mark leaves it the mark that it is. -/
def EndsBefore : Comparison → Text → Prop
  | gt, r | lt, r => ∀ s, r ≠ '=' :: s
  | ge, _ | le, _ => True
  | eq, r => (∀ s, r ≠ '>' :: s) ∧ ∀ s, r ≠ '<' :: s
  | other _, _ => False

theorem written_of_isInequality {op : Comparison} (h : op.isInequality = true) :
    op.written = op.mark := by
  cases op with
  | eq => simp [isInequality] at h
  | _ => rfl

theorem isInequality_of_endsBefore {op : Comparison} {r : Text} (h : op.EndsBefore r)
    (hne : op ≠ eq) : op.isInequality = true := by
  cases op with
  | eq => exact absurd rfl hne
  | other => exact h.elim
  | _ => rfl

end Comparison

namespace Token

/-- A value as it stands after a colon, with or without quotes around it. -/
def enclosed (quoted : Bool) (value : Text) : Text :=
  if quoted then '"' :: (value ++ ['"']) else value

end Token

namespace Lexeme

open Token (enclosed)

theorem readBare_eq_iff {t v r : Text} :
    readBare t = (v, r) ↔
      t = v ++ r ∧ (∀ c ∈ v, isBareChar c = true) ∧ ∀ c ∈ r.head?, isBareChar c = false := by
  rw [readBare, Prod.mk.injEq, Text.span_iff]

theorem isBlank_of_isBareChar {c : Char} (h : isBareChar c = true) : Text.isBlank c = false := by
  simp only [isBareChar, Bool.and_eq_true, Bool.not_eq_true'] at h
  exact h.1

theorem readQuoted?_eq_none_iff {t : Text} : readQuoted? t = none ↔ '"' ∉ t := by
  have hd : t.dropWhile (· ≠ '"') = [] ↔ '"' ∉ t := by
    rw [List.dropWhile_eq_nil_iff]
    constructor
    · intro h hm
      simpa using h _ hm
    · intro h c hc
      simpa using fun e : c = '"' => h (e ▸ hc)
  rw [← hd, readQuoted?]
  split
  · rename_i h
    exact iff_of_true rfl h
  · rename_i h
    exact iff_of_false (by simp) (by rw [h]; exact List.cons_ne_nil _ _)

theorem readQuoted?_eq_some_iff {t s r : Text} :
    readQuoted? t = some (s, r) ↔ t = s ++ '"' :: r ∧ '"' ∉ s := by
  have hclass (s : Text) : (∀ c ∈ s, decide (c ≠ '"') = true) ↔ '"' ∉ s := by
    simp only [decide_eq_true_eq]
    exact ⟨fun h hm => h _ hm rfl, fun h c hc he => h (he ▸ hc)⟩
  constructor
  · intro h
    unfold readQuoted? at h
    split at h
    · simp at h
    · rename_i c rest hd
      obtain ⟨htake, rfl⟩ : t.takeWhile (· ≠ '"') = s ∧ rest = r := by simpa using h
      obtain ⟨ht, hs, hc⟩ := Text.span_iff.mp ⟨htake, hd⟩
      obtain rfl : c = '"' := by simpa using hc c rfl
      exact ⟨ht, (hclass s).mp hs⟩
  · rintro ⟨rfl, hs⟩
    have hquote : ∀ c ∈ ('"' :: r).head?, decide (c ≠ '"') = false := by simp
    obtain ⟨htake, hdrop⟩ := Text.span_iff.mpr ⟨rfl, (hclass s).mpr hs, hquote⟩
    rw [readQuoted?, htake, hdrop]

theorem isNameChar_of_isNameStart {c : Char} (h : isNameStart c = true) :
    isNameChar c = true := by
  simp only [isNameStart, isNameChar, Char.isAlphanum, Bool.or_eq_true] at h ⊢
  tauto

theorem readFieldName?_eq_some_iff {t n r : Text} :
    readFieldName? t = some (n, r) ↔ n.IsName ∧ t = n ++ ':' :: r := by
  constructor
  · intro h
    unfold readFieldName? at h
    split at h
    · split at h
      · rename_i c cs hc
        split at h
        · rename_i rest hd
          obtain ⟨rfl, rfl⟩ : c :: cs.takeWhile isNameChar = n ∧ rest = r := by simpa using h
          obtain ⟨hcs, hall, -⟩ := Text.span_iff.mp ⟨rfl, hd⟩
          exact ⟨⟨hc, hall⟩, congrArg (c :: ·) hcs⟩
        · simp at h
      · simp at h
    · simp at h
  · rintro ⟨hn, rfl⟩
    cases n with
    | nil => exact hn.elim
    | cons c n =>
      have hcolon : ∀ d ∈ (':' :: r).head?, isNameChar d = false := by
        rintro _ ⟨⟩
        rfl
      obtain ⟨htake, hdrop⟩ := Text.span_iff.mpr ⟨rfl, hn.2, hcolon⟩
      rw [List.cons_append, readFieldName?, if_pos hn.1, htake, hdrop]
      rfl

theorem readComparison?_eq_some_iff {t r : Text} {op : Comparison} :
    readComparison? t = some (op, r) ↔
      t = op.mark ++ r ∧ op.isInequality = true ∧ op.EndsBefore r := by
  constructor
  · intro h
    unfold readComparison? at h
    split at h
    · obtain ⟨rfl, rfl⟩ := by simpa using h
      exact ⟨rfl, rfl, trivial⟩
    · obtain ⟨rfl, rfl⟩ := by simpa using h
      exact ⟨rfl, rfl, trivial⟩
    · rename_i hge
      obtain ⟨rfl, rfl⟩ := by simpa using h
      exact ⟨rfl, rfl, fun s hs => hge s (by rw [hs])⟩
    · rename_i hle
      obtain ⟨rfl, rfl⟩ := by simpa using h
      exact ⟨rfl, rfl, fun s hs => hle s (by rw [hs])⟩
    · simp at h
  · rintro ⟨rfl, hop, hr⟩
    cases op with
    | ge | le => rfl
    | gt | lt =>
      rw [Comparison.mark, List.singleton_append, readComparison?]
      exact hr
    | eq | other => simp [Comparison.isInequality] at hop

theorem readComparison?_eq_none_iff {t : Text} :
    readComparison? t = none ↔ Comparison.eq.EndsBefore t := by
  unfold readComparison? Comparison.EndsBefore
  split <;> simp_all

theorem comparison_iff {value r : Text} {op : Comparison} :
    (readComparison? value).getD (.eq, value) = (op, r) ↔
      value = op.written ++ r ∧ op.EndsBefore r := by
  constructor
  · intro h
    cases hc : readComparison? value with
    | none =>
      obtain ⟨rfl, rfl⟩ := by simpa [hc] using h
      exact ⟨rfl, readComparison?_eq_none_iff.mp hc⟩
    | some p =>
      obtain rfl : p = (op, r) := by simpa [hc] using h
      obtain ⟨rfl, hop, hr⟩ := readComparison?_eq_some_iff.mp hc
      exact ⟨by rw [Comparison.written_of_isInequality hop], hr⟩
  · rintro ⟨rfl, hr⟩
    by_cases he : op = .eq
    · subst he
      rw [Comparison.written, List.nil_append, readComparison?_eq_none_iff.mpr hr]
      rfl
    · have hop := Comparison.isInequality_of_endsBefore hr he
      rw [Comparison.written_of_isInequality hop, readComparison?_eq_some_iff.mpr ⟨rfl, hop, hr⟩]
      rfl

theorem numberToken_eq_ok_iff {name value : Text} {k : Token} (hv : value ≠ []) :
    numberToken name value = .ok k ↔
      ∃ op number, k = .range name op number ∧ number ≠ [] ∧ value = op.written ++ number ∧
        op.EndsBefore number := by
  have heq : numberToken name value =
      match (readComparison? value).getD (.eq, value) with
      | (op, number) =>
        if number.isEmpty then .error (.malformed (.emptyFieldValue name))
        else .ok (.range name op number) := by
    cases hc : readComparison? value with
    | none => simp [numberToken, hc, hv]
    | some p => simp [numberToken, hc]
  simp only [heq, ← comparison_iff]
  generalize (readComparison? value).getD (.eq, value) = p
  constructor
  · intro h
    split at h
    · simp at h
    · rename_i hne
      exact ⟨p.1, p.2, (Except.ok.inj h).symm, by simpa using hne, rfl⟩
  · rintro ⟨op, number, rfl, hne, rfl⟩
    rw [if_neg (by simpa using hne)]

theorem splitDots?_cons {c : Char} {t : Text} (h : ¬ Text.dots <+: c :: t) :
    splitDots? (c :: t) = (splitDots? t).map fun p => (c :: p.1, p.2) := by
  rw [splitDots?]
  rintro r rfl rfl
  exact h (List.prefix_append Text.dots r)

theorem not_isPrefix_dots {c : Char} {t : Text} (h : ∀ r, c = '.' → t = '.' :: r → False) :
    ¬ Text.dots <+: c :: t := by
  rintro ⟨r, hr⟩
  obtain ⟨hc, ht⟩ := List.cons.inj hr
  exact h r hc.symm ht.symm

theorem splitDots?_eq_some_iff {t low high : Text} :
    splitDots? t = some (low, high) ↔
      t = low ++ '.' :: '.' :: high ∧ ¬ Text.dots <:+: low ++ ['.'] := by
  constructor
  · intro h
    fun_induction splitDots? t generalizing low with
    | case1 r =>
      obtain ⟨rfl, rfl⟩ := by simpa using h
      exact ⟨rfl, by decide⟩
    | case2 c cs hne ih =>
      obtain ⟨⟨l, r⟩, hs, hp⟩ := Option.map_eq_some_iff.mp h
      obtain ⟨rfl, rfl⟩ := by simpa using hp
      obtain ⟨rfl, hdots⟩ := ih hs
      refine ⟨rfl, ?_⟩
      rw [List.cons_append, List.infix_cons_iff, not_or]
      exact ⟨fun hp => not_isPrefix_dots hne (hp.trans ⟨'.' :: r, by simp⟩), hdots⟩
    | case3 => simp at h
  · rintro ⟨rfl, hdots⟩
    induction low with
    | nil => rfl
    | cons c low ih =>
      rw [List.cons_append, List.infix_cons_iff, not_or] at hdots
      have hc : ¬ Text.dots <+: c :: (low ++ '.' :: '.' :: high) := by
        intro hp
        refine hdots.1 (List.prefix_of_prefix_length_le hp ⟨'.' :: high, ?_⟩ ?_)
        · simp
        · simp [Text.dots]
      rw [List.cons_append, splitDots?_cons hc, ih hdots.2]
      rfl

theorem splitDots?_eq_none_iff {t : Text} : splitDots? t = none ↔ ¬ Text.dots <:+: t := by
  constructor
  · intro h
    fun_induction splitDots? t with
    | case1 r => simp at h
    | case2 c cs hne ih =>
      rw [List.infix_cons_iff, not_or]
      exact ⟨not_isPrefix_dots hne, ih (Option.map_eq_none_iff.mp h)⟩
    | case3 => decide
  · intro h
    cases hs : splitDots? t with
    | none => rfl
    | some p =>
      refine absurd ⟨p.1, p.2, ?_⟩ h
      rw [(splitDots?_eq_some_iff.mp hs).1, List.append_assoc]
      rfl

theorem dateToken_eq_ok_iff {value : Text} {k : Token} :
    dateToken value = .ok k ↔
      (∃ low high, k = .dates low high ∧ low ≠ [] ∧ high ≠ [] ∧
        value = low ++ '.' :: '.' :: high ∧ ¬ Text.dots <:+: low ++ ['.']) ∨
      ¬ Text.dots <:+: value ∧
        ((∃ op day, k = .range dateField op day ∧ day ≠ [] ∧
          value = op.mark ++ day ∧ op.isInequality = true ∧ op.EndsBefore day) ∨
        k = .dates value value ∧ Comparison.eq.EndsBefore value) := by
  constructor
  · intro h
    unfold dateToken at h
    split at h
    · rename_i low high hs
      split at h
      · simp at h
      · rename_i hne
        obtain ⟨hlow, hhigh⟩ : low ≠ [] ∧ high ≠ [] := by simpa using hne
        exact .inl ⟨low, high, (Except.ok.inj h).symm, hlow, hhigh, splitDots?_eq_some_iff.mp hs⟩
    · rename_i hs
      refine .inr ⟨splitDots?_eq_none_iff.mp hs, ?_⟩
      split at h
      · rename_i op day hc
        split at h
        · simp at h
        · rename_i hne
          exact .inl ⟨op, day, (Except.ok.inj h).symm, by simpa using hne,
            readComparison?_eq_some_iff.mp hc⟩
      · rename_i hc
        exact .inr ⟨(Except.ok.inj h).symm, readComparison?_eq_none_iff.mp hc⟩
  · rintro (⟨low, high, rfl, hlow, hhigh, hs⟩ | ⟨hs, ⟨op, day, rfl, hday, hc⟩ | ⟨rfl, hc⟩⟩)
    · rw [dateToken, splitDots?_eq_some_iff.mpr hs]
      simp [hlow, hhigh]
    · rw [dateToken, splitDots?_eq_none_iff.mpr hs, readComparison?_eq_some_iff.mpr hc]
      simp [hday]
    · rw [dateToken, splitDots?_eq_none_iff.mpr hs, readComparison?_eq_none_iff.mpr hc]

theorem length_of_matchesWord {ls cs : Text} (h : matchesWord ls cs = true) :
    cs.length = ls.length := by
  fun_induction matchesWord ls cs with
  | case1 => rfl
  | case2 l ls c cs ih =>
    rw [Bool.and_eq_true] at h
    rw [List.length_cons, List.length_cons, ih h.2]
  | case3 => simp at h

/-- The words that pass for a direction. -/
def IsDirection (word : Text) : Prop :=
  matchesWord "asc".toList word = true ∨ matchesWord "desc".toList word = true

/-- The directions as a directive keeps them: U+017F passes for an `s` and stays what it is. -/
def directions : List Text :=
  ["asc".toList, "desc".toList, ['a', Text.longS, 'c'], ['d', 'e', Text.longS, 'c']]

theorem isDirection_of_mem {d : Text} (h : d ∈ directions) :
    IsDirection d ∧ d.map Char.toLower = d ∧ ∀ c ∈ d, isBareChar c = true := by
  simp only [directions, List.mem_cons, List.not_mem_nil, or_false] at h
  unfold IsDirection
  rcases h with rfl | rfl | rfl | rfl <;> exact ⟨by decide, rfl, List.all_eq_true.mp rfl⟩

theorem IsDirection.mem_directions {word : Text} (h : IsDirection word) :
    word.map Char.toLower ∈ directions := by
  rcases h with h | h
  · obtain ⟨a, s, c, rfl⟩ := List.length_eq_three.mp (length_of_matchesWord h)
    have hletters : (a = 'a' ∨ a = 'A') ∧ ((s = 's' ∨ s = 'S') ∨ s = Text.longS) ∧
        (c = 'c' ∨ c = 'C') := by
      simpa [matchesWord, matchesLetter, Text.longS] using h
    obtain ⟨rfl | rfl, (rfl | rfl) | rfl, rfl | rfl⟩ := hletters <;> decide
  · have hlength := length_of_matchesWord h
    obtain ⟨d, word, rfl⟩ := List.exists_cons_of_length_eq_add_one hlength
    obtain ⟨e, s, c, rfl⟩ := List.length_eq_three.mp (Nat.succ.inj hlength)
    have hletters : (d = 'd' ∨ d = 'D') ∧ (e = 'e' ∨ e = 'E') ∧
        ((s = 's' ∨ s = 'S') ∨ s = Text.longS) ∧ (c = 'c' ∨ c = 'C') := by
      simpa [matchesWord, matchesLetter, Text.longS] using h
    obtain ⟨rfl | rfl, rfl | rfl, (rfl | rfl) | rfl, rfl | rfl⟩ := hletters <;> decide

theorem sortToken?_eq_some_iff {value : Text} {k : Token} :
    sortToken? value = some k ↔
      ∃ key word, k = .sort key (word.map Char.toLower) ∧ value = key ++ ':' :: word ∧
        key ≠ [] ∧ (∀ c ∈ key, Text.isWordChar c = true) ∧ IsDirection word := by
  constructor
  · intro h
    unfold sortToken? at h
    split at h
    · simp at h
    · rename_i word hword hkey
      split at h
      · rename_i hw
        obtain ⟨hv, hall, -⟩ := Text.span_iff.mp ⟨rfl, hword⟩
        exact ⟨_, word, (Option.some.inj h).symm, hv, hkey, hall, by simpa [IsDirection] using hw⟩
      · simp at h
    · simp at h
  · rintro ⟨key, word, rfl, rfl, hne, hkey, hw⟩
    have hcolon : ∀ c ∈ (':' :: word).head?, Text.isWordChar c = false := by
      rintro _ ⟨⟩
      decide +kernel
    obtain ⟨htake, hdrop⟩ := Text.span_iff.mpr ⟨rfl, hkey, hcolon⟩
    obtain ⟨c, key, rfl⟩ := List.exists_cons_of_ne_nil hne
    rw [sortToken?, htake, hdrop]
    exact if_pos (by simpa [IsDirection] using hw)

/-- A value that ends at its closing quote, or without quotes at the text that stands behind. -/
def Delimited (rest : Text) : Bool → Text → Prop
  | true, value => value.Quotable
  | false, value => value.Plain ∧ ∀ c ∈ rest.head?, isBareChar c = false

theorem Delimited.quotable {rest value : Text} {quoted : Bool}
    (h : Delimited rest quoted value) : value.Quotable := by
  cases quoted with
  | true => exact h
  | false => exact h.1.quotable

theorem finish_eq_ok_iff {e : Failure} {value rest r : Text} {x : Except Failure Token}
    {k : Token} :
    (if value.isEmpty then .error e else x.map fun token => (token, rest)) = .ok (k, r) ↔
      value ≠ [] ∧ rest = r ∧ x = .ok k := by
  by_cases hv : value = []
  · simp [hv]
  · cases x <;> simp [hv, Except.map, and_comm]

theorem scanField_bare {name t : Text} (ht : ∀ cs, t ≠ '"' :: cs) :
    scanField name t =
      if (readBare t).1.isEmpty then .error (.malformed (.emptyFieldValue name))
      else (fieldToken name (readBare t).1 (readBare t).1 false).map
        fun token => (token, (readBare t).2) := by
  unfold scanField
  split
  · exact absurd rfl (ht _)
  · rfl

theorem scanField_eq_ok_iff {name t r : Text} {k : Token} :
    scanField name t = .ok (k, r) ↔
      ∃ quoted value, t = enclosed quoted value ++ r ∧ Delimited r quoted value ∧
        fieldToken name value (enclosed quoted value) quoted = .ok k := by
  constructor
  · intro h
    unfold scanField at h
    split at h
    · split at h
      · simp at h
      · rename_i value rest hq
        obtain ⟨hne, rfl, hk⟩ := finish_eq_ok_iff.mp h
        obtain ⟨rfl, hv⟩ := readQuoted?_eq_some_iff.mp hq
        exact ⟨true, value, by simp [enclosed], ⟨hne, hv⟩, hk⟩
    · obtain ⟨hne, hr, hk⟩ := finish_eq_ok_iff.mp h
      obtain ⟨ht, hv, hrest⟩ := Text.span_iff.mp ⟨rfl, hr⟩
      exact ⟨false, _, ht, ⟨⟨hne, hv⟩, hrest⟩, hk⟩
  · rintro ⟨quoted, value, rfl, hv, hk⟩
    cases quoted with
    | true =>
      have hread : readQuoted? (value ++ '"' :: r) = some (value, r) :=
        readQuoted?_eq_some_iff.mpr ⟨rfl, hv.2⟩
      have ht : enclosed true value ++ r = '"' :: (value ++ '"' :: r) := by simp [enclosed]
      simp only [ht, scanField, hread]
      exact finish_eq_ok_iff.mpr ⟨hv.1, rfl, hk⟩
    | false =>
      obtain ⟨hplain, hrest⟩ := hv
      have hread : readBare (value ++ r) = (value, r) :=
        readBare_eq_iff.mpr ⟨rfl, hplain.2, hrest⟩
      show scanField name (value ++ r) = _
      rw [scanField_bare (hplain.quotable.append_ne_quote_cons r), hread]
      exact finish_eq_ok_iff.mpr ⟨hplain.1, rfl, hk⟩

theorem fieldToken_eq_ok_iff {name value written : Text} {quoted : Bool} {k : Token} :
    fieldToken name value written quoted = .ok k ↔
      (name = sortField ∧ sortToken? value = some k) ∨
      (name = dateField ∧ dateToken value = .ok k) ∨
      (isViewsName name = true ∧ numberToken name value = .ok k) ∨
      (name ≠ sortField ∧ name ≠ dateField ∧ isViewsName name = false ∧
        k = .field name value quoted) := by
  unfold fieldToken
  split
  · rename_i hn
    subst hn
    have hd : sortField ≠ dateField := by decide
    have hv : isViewsName sortField = false := by decide
    split <;> simp [*]
  · split
    · rename_i hn
      subst hn
      have hv : isViewsName dateField = false := by decide
      simp [*]
    · split <;> simp [*, eq_comm]

theorem scanPhrase_eq_ok_iff {t r : Text} {k : Token} :
    scanPhrase t = .ok (k, r) ↔
      ∃ text, k = .phrase text ∧ text.Quotable ∧ t = text ++ '"' :: r := by
  constructor
  · intro h
    unfold scanPhrase at h
    split at h
    · simp at h
    · rename_i text rest hq
      split at h
      · simp at h
      · rename_i hne
        obtain ⟨rfl, rfl⟩ := by simpa using h
        obtain ⟨ht, hquote⟩ := readQuoted?_eq_some_iff.mp hq
        exact ⟨text, rfl, ⟨by simpa using hne, hquote⟩, ht⟩
  · rintro ⟨text, rfl, htext, rfl⟩
    rw [scanPhrase, readQuoted?_eq_some_iff.mpr ⟨rfl, htext.2⟩]
    simp [htext.1]

theorem scanTerm_bare {excluded : Bool} {t : Text} (ht : ∀ cs, t ≠ '"' :: cs) :
    scanTerm excluded t =
      match readFieldName? t with
      | some (name, rest) => scanField name rest
      | none => .ok (bareToken (readBare t).1 excluded, (readBare t).2) := by
  unfold scanTerm
  split
  · exact absurd rfl (ht _)
  · rfl

theorem scanTerm_named {name : Text} (hn : name.IsName) (excluded : Bool) (rest : Text) :
    scanTerm excluded (name ++ ':' :: rest) = scanField name rest := by
  rw [scanTerm_bare (hn.append_ne_cons (by decide) _), readFieldName?_eq_some_iff.mpr ⟨hn, rfl⟩]

theorem scanTerm_eq_ok_iff {excluded : Bool} {t r : Text} {k : Token} :
    scanTerm excluded t = .ok (k, r) ↔
      (∃ text, k = .phrase text ∧ text.Quotable ∧ t = enclosed true text ++ r) ∨
      (∃ name rest, name.IsName ∧ t = name ++ ':' :: rest ∧ scanField name rest = .ok (k, r)) ∨
      ((∀ s, t ≠ '"' :: s) ∧ (∀ name rest, name.IsName → t ≠ name ++ ':' :: rest) ∧
        ∃ text, k = bareToken text excluded ∧ readBare t = (text, r)) := by
  -- a quote at the front decides, and after it a field name
  by_cases hq : ∃ s, t = '"' :: s
  · obtain ⟨s, rfl⟩ := hq
    have hscan : scanTerm excluded ('"' :: s) = scanPhrase s := rfl
    rw [hscan, scanPhrase_eq_ok_iff]
    constructor
    · rintro ⟨text, hk, htext, rfl⟩
      exact .inl ⟨text, hk, htext, by simp [enclosed]⟩
    · rintro (⟨text, hk, htext, he⟩ | ⟨name, rest, hname, he, -⟩ | ⟨hne, -⟩)
      · exact ⟨text, hk, htext, by simpa [enclosed] using he⟩
      · exact absurd he.symm (hname.append_ne_cons (by decide) _ _)
      · exact absurd rfl (hne s)
  · have hne : ∀ s, t ≠ '"' :: s := fun s hs => hq ⟨s, hs⟩
    have hphrase : ¬ ∃ text, k = .phrase text ∧ text.Quotable ∧ t = enclosed true text ++ r := by
      rintro ⟨text, -, -, rfl⟩
      exact hne _ rfl
    rw [scanTerm_bare hne, or_iff_right hphrase]
    cases hn : readFieldName? t with
    | some p =>
      obtain ⟨name, rest⟩ := p
      have hname := readFieldName?_eq_some_iff.mp hn
      constructor
      · intro h
        exact .inl ⟨name, rest, hname.1, hname.2, h⟩
      · rintro (⟨name', rest', hname', ht, h⟩ | ⟨-, hno, -⟩)
        · obtain ⟨rfl, rfl⟩ : name' = name ∧ rest' = rest := by
            simpa [hn] using (readFieldName?_eq_some_iff.mpr ⟨hname', ht⟩).symm
          exact h
        · exact absurd hname.2 (hno name rest hname.1)
    | none =>
      have hno : ∀ name rest, Text.IsName name → t ≠ name ++ ':' :: rest := by
        intro name rest hname ht
        simp [readFieldName?_eq_some_iff.mpr ⟨hname, ht⟩] at hn
      have hfield : ¬ ∃ name rest, Text.IsName name ∧ t = name ++ ':' :: rest ∧
          scanField name rest = .ok (k, r) := by
        rintro ⟨name, rest, hname, ht, -⟩
        exact hno name rest hname ht
      rw [or_iff_right hfield, and_iff_right hne, and_iff_right hno]
      simp only [Except.ok.injEq, Prod.ext_iff]
      constructor
      · rintro ⟨hk, hr⟩
        exact ⟨_, hk.symm, rfl, hr⟩
      · rintro ⟨_, hk, ht, hr⟩
        exact ⟨by rw [ht, hk], hr⟩

theorem scanToken_hyphen {c : Char} (hc : Text.isBlank c = false) (t : Text) :
    scanToken ('-' :: c :: t) =
      (scanTerm true (c :: t)).map fun p => (.exclude p.1, p.2) := by
  rw [scanToken, if_neg (by simp [hc])]

theorem scanToken_of_no_exclusion {t : Text}
    (h : ∀ c s, t = '-' :: c :: s → Text.isBlank c = true) : scanToken t = scanTerm false t := by
  unfold scanToken
  split
  · exact if_pos (h _ _ rfl)
  · rfl

theorem scanToken_eq_ok_iff {t r : Text} {k : Token} :
    scanToken t = .ok (k, r) ↔
      (∃ c s u, t = '-' :: c :: s ∧ Text.isBlank c = false ∧ k = .exclude u ∧
        scanTerm true (c :: s) = .ok (u, r)) ∨
      (∀ c s, t = '-' :: c :: s → Text.isBlank c = true) ∧ scanTerm false t = .ok (k, r) := by
  constructor
  · intro h
    by_cases hyphen : ∃ c s, t = '-' :: c :: s ∧ Text.isBlank c = false
    · obtain ⟨c, s, rfl, hc⟩ := hyphen
      rw [scanToken_hyphen hc] at h
      obtain ⟨⟨u, r'⟩, hu, he⟩ := map_eq_ok_iff.mp h
      obtain ⟨rfl, rfl⟩ := Prod.mk.inj he
      exact .inl ⟨c, s, u, rfl, hc, rfl, hu⟩
    · have hno : ∀ c s, t = '-' :: c :: s → Text.isBlank c = true :=
        fun c s ht => Bool.of_not_eq_false fun hc => hyphen ⟨c, s, ht, hc⟩
      exact .inr ⟨hno, by rwa [scanToken_of_no_exclusion hno] at h⟩
  · rintro (⟨c, s, u, rfl, hc, rfl, h⟩ | ⟨hno, h⟩)
    · rw [scanToken_hyphen hc, h]
      rfl
    · rw [scanToken_of_no_exclusion hno, h]

end Lexeme

end ArticleArchive
