import ArticleArchive.Proofs.Text.Trim
import ArticleArchive.Text.Numeral

namespace ArticleArchive.Text

theorem toNat_of_isDigit {c : Char} (h : c.isDigit = true) : 48 ≤ c.toNat ∧ c.toNat ≤ 57 := by
  simpa [Char.isDigit, UInt32.le_iff_toNat_le] using h

theorem isSpace_of_isDigit {c : Char} (h : c.isDigit = true) : isSpace c = false := by
  have := toNat_of_isDigit h
  simp [isSpace]
  omega

theorem isBlank_of_isDigit {c : Char} (h : c.isDigit = true) : isBlank c = false := by
  have := toNat_of_isDigit h
  simp [isBlank, isSpace_of_isDigit h]
  omega

theorem digitValue?_of_isDigit {c : Char} (h : c.isDigit = true) :
    digitValue? c = some (c.toNat - 48) := by
  have := toNat_of_isDigit h
  have hz : decimalZeros = 0x30 :: decimalZeros.tail := rfl
  rw [digitValue?, hz, List.find?_cons_of_pos (by simp; omega)]
  rfl

theorem digits?_of_all {t : Text} (hne : t ≠ []) (h : t.all Char.isDigit = true) :
    digits? t = some (t.map fun c => c.toNat - 48) := by
  induction t with
  | nil => exact absurd rfl hne
  | cons c cs ih =>
    rw [List.all_cons, Bool.and_eq_true] at h
    rw [digits?, digitValue?_of_isDigit h.1]
    cases cs with
    | nil => rfl
    | cons d ds =>
      -- an underscore is no digit, so the digits go on right away
      have hd : d ≠ '_' := by
        rintro rfl
        simp at h
      simp only [ih (List.cons_ne_nil _ _) h.2]
      rfl

theorem integer?_of_all {t : Text} (hne : t ≠ []) (h : t.all Char.isDigit = true) :
    integer? t = if t.length ≤ maxDigits then some (asciiValue t : Int) else none := by
  have hspace : ∀ c ∈ t, isSpace c = false := fun c hc =>
    isSpace_of_isDigit (List.all_eq_true.mp h c hc)
  have hn : natural? t = if t.length ≤ maxDigits then some (asciiValue t) else none := by
    simp [natural?, digits?_of_all hne h, asciiValue]
  rw [integer?, trimBy_eq_self hspace]
  split
  · simp at h
  · simp at h
  · rw [hn]
    split <;> rfl

theorem asciiValue_eq_ofDigitChars (t : Text) : asciiValue t = Nat.ofDigitChars 10 t 0 := by
  rw [asciiValue, ofDigits, List.foldl_map, Nat.ofDigitChars_eq_foldl]
  rfl

theorem asciiValue_paddedDigits (width n : Nat) : asciiValue (paddedDigits width n) = n := by
  rw [asciiValue_eq_ofDigitChars, paddedDigits, Nat.ofDigitChars_append,
    Nat.ofDigitChars_replicate_zero, Nat.mul_zero, Nat.ofDigitChars_ten_toDigits]

theorem isDigit_of_mem_paddedDigits {width n : Nat} {c : Char} (h : c ∈ paddedDigits width n) :
    c.isDigit = true := by
  rcases List.mem_append.mp h with h | h
  · obtain ⟨-, rfl⟩ := List.mem_replicate.mp h
    rfl
  · exact Nat.isDigit_of_mem_toDigits (by decide) (by decide) h

theorem asciiNumber?_paddedDigits (width n : Nat) :
    asciiNumber? (paddedDigits width n) = some n := by
  have h : (paddedDigits width n).all Char.isDigit = true :=
    List.all_eq_true.mpr fun c hc => isDigit_of_mem_paddedDigits hc
  rw [asciiNumber?, if_pos h, asciiValue_paddedDigits]

theorem length_paddedDigits (width n : Nat) (hw : 0 < width) (h : n < 10 ^ width) :
    (paddedDigits width n).length = width := by
  have hl := (Nat.length_toDigits_le_iff (by decide) hw).mpr h
  rw [paddedDigits, List.length_append, List.length_replicate]
  omega

theorem asciiValue_concat (t : Text) (c : Char) :
    asciiValue (t ++ [c]) = 10 * asciiValue t + (c.toNat - 48) := by
  simp [asciiValue, ofDigits]

theorem asciiValue_lt {t : Text} (h : ∀ c ∈ t, c.isDigit = true) :
    asciiValue t < 10 ^ t.length := by
  induction t using List.reverseRecOn with
  | nil => decide
  | append_singleton t c ih =>
    have ht := ih fun d hd => h d (List.mem_append_left _ hd)
    have hc := toNat_of_isDigit (h c (by simp))
    rw [asciiValue_concat, List.length_append, List.length_singleton, Nat.pow_succ]
    omega

theorem eq_of_asciiValue_eq {s t : Text} (hs : ∀ c ∈ s, c.isDigit = true)
    (ht : ∀ c ∈ t, c.isDigit = true) (hl : s.length = t.length)
    (h : asciiValue s = asciiValue t) : s = t := by
  induction s using List.reverseRecOn generalizing t with
  | nil => exact (List.length_eq_zero_iff.mp hl.symm).symm
  | append_singleton s c ih =>
    rcases List.eq_nil_or_concat t with rfl | ⟨t, d, rfl⟩
    · simp at hl
    · rw [List.concat_eq_append] at *
      have hc := toNat_of_isDigit (hs c (by simp))
      have hd := toNat_of_isDigit (ht d (by simp))
      rw [asciiValue_concat, asciiValue_concat] at h
      have hcd : c = d := Char.toNat_inj.mp (by omega)
      have hst : s = t := by
        refine ih (fun a ha => hs a (List.mem_append_left _ ha))
          (fun a ha => ht a (List.mem_append_left _ ha)) ?_ (by omega)
        simpa using hl
      rw [hst, hcd]

theorem paddedDigits_of_asciiNumber? {t : Text} {n : Nat} (h : asciiNumber? t = some n)
    (hne : t ≠ []) : paddedDigits t.length n = t := by
  unfold asciiNumber? at h
  split at h
  · rename_i hall
    have hdigits := List.all_eq_true.mp hall
    obtain rfl := Option.some.inj h
    refine eq_of_asciiValue_eq (fun c hc => isDigit_of_mem_paddedDigits hc) hdigits ?_ ?_
    · exact length_paddedDigits _ _ (List.length_pos_iff.mpr hne) (asciiValue_lt hdigits)
    · exact asciiValue_paddedDigits _ _
  · simp at h

theorem exists_paddedDigits_two {n : Nat} (h : n < 100) :
    ∃ a b, paddedDigits 2 n = [a, b] ∧ asciiNumber? [a, b] = some n := by
  have hl := length_paddedDigits 2 n (by decide) h
  have hn := asciiNumber?_paddedDigits 2 n
  generalize paddedDigits 2 n = t at hl hn
  match t, hl with
  | [a, b], _ => exact ⟨a, b, rfl, hn⟩

theorem exists_paddedDigits_four {n : Nat} (h : n < 10000) :
    ∃ a b c d, paddedDigits 4 n = [a, b, c, d] ∧ asciiNumber? [a, b, c, d] = some n := by
  have hl := length_paddedDigits 4 n (by decide) h
  have hn := asciiNumber?_paddedDigits 4 n
  generalize paddedDigits 4 n = t at hl hn
  match t, hl with
  | [a, b, c, d], _ => exact ⟨a, b, c, d, rfl, hn⟩

def blankCodes : List Nat := [
  0x9, 0xA, 0xB, 0xC, 0xD, 0x1C, 0x1D, 0x1E, 0x1F, 0x20, 0x85, 0xA0, 0x1680, 0x2000, 0x2001, 0x2002,
  0x2003, 0x2004, 0x2005, 0x2006, 0x2007, 0x2008, 0x2009, 0x200A, 0x2028, 0x2029, 0x202F, 0x205F,
  0x3000]

theorem mem_blankCodes {c : Char} (h : isBlank c = true) : c.toNat ∈ blankCodes := by
  simp only [isBlank, isSpace, Bool.or_eq_true, Bool.and_eq_true, decide_eq_true_eq,
    beq_iff_eq] at h
  simp only [blankCodes, List.mem_cons, List.not_mem_nil, or_false]
  omega

theorem isBlank_of_isDigitLike {c : Char} (h : isDigitLike c = true) : isBlank c = false := by
  have hzeros : ∀ n ∈ blankCodes, ∀ z ∈ decimalZeros, ¬ (z ≤ n ∧ n < z + 10) := by
    decide +kernel
  have hsigns : ∀ n ∈ blankCodes, ∀ r ∈ digitSignRanges, ¬ (r.1 ≤ n ∧ n ≤ r.2) := by
    decide +kernel
  refine Bool.eq_false_iff.mpr fun hb => ?_
  have hb : c.toNat ∈ blankCodes := mem_blankCodes hb
  rw [isDigitLike, Bool.or_eq_true] at h
  rcases h with h | h
  · simp only [digitValue?, Option.isSome_map, List.find?_isSome, Bool.and_eq_true,
      decide_eq_true_eq] at h
    obtain ⟨z, hz, hc⟩ := h
    exact hzeros _ hb z hz hc
  · obtain ⟨r, hr, hc⟩ := CodeRanges.contains_iff.mp h
    exact hsigns _ hb r hr hc

theorem isSpace_of_isBlank {c : Char} (h : isBlank c = false) : isSpace c = false :=
  Bool.eq_false_iff.mpr fun hs => by simp [isBlank_of_isSpace hs] at h

theorem isDigitLike_of_isDigits {t : Text} (h : isDigits t = true) :
    ∀ c ∈ t, isDigitLike c = true := by
  rw [isDigits, Bool.and_eq_true] at h
  exact List.all_eq_true.mp h.2

theorem digits?_eq_none_of_mem {t : Text} {c : Char} (hc : c ∈ t) (hv : digitValue? c = none)
    (hu : c ≠ '_') : digits? t = none := by
  fun_induction digits? t with
  | case1 => simp at hc
  | case2 a t ha => rfl
  | case3 a d ha =>
    obtain rfl : c = a := by simpa using hc
    simp [hv] at ha
  | case4 a d ha t ih =>
    rcases List.mem_cons.mp hc with rfl | hc
    · simp [hv] at ha
    · rw [ih ((List.mem_cons.mp hc).resolve_left hu)]
      rfl
  | case5 a d ha b t hb ih =>
    rcases List.mem_cons.mp hc with rfl | hc
    · simp [hv] at ha
    · rw [ih hc]
      rfl

theorem digits?_isSome {t : Text} (hne : t ≠ []) (hv : ∀ c ∈ t, digitValue? c ≠ none) :
    ∃ ds, digits? t = some ds ∧ ds.length = t.length := by
  fun_induction digits? t with
  | case1 => exact absurd rfl hne
  | case2 a t ha => exact absurd ha (hv a List.mem_cons_self)
  | case3 a d ha => exact ⟨[d], rfl, rfl⟩
  | case4 a d ha t ih => exact absurd (by decide +kernel) (hv '_' (by simp))
  | case5 a d ha b t hb ih =>
    obtain ⟨ds, hds, hl⟩ := ih (List.cons_ne_nil b t) fun c hc => hv c (List.mem_cons_of_mem a hc)
    exact ⟨d :: ds, by rw [hds]; rfl, by simp [hl]⟩

/-- Digits and digit signs that no integer is read from. -/
def IsUnreadable (t : Text) : Prop :=
  isDigits t = true ∧ ((∃ c ∈ t, digitValue? c = none) ∨ maxDigits < t.length)

theorem natural?_eq_none_iff {t : Text} (h : isDigits t = true) :
    natural? t = none ↔ (∃ c ∈ t, digitValue? c = none) ∨ maxDigits < t.length := by
  have hlike := isDigitLike_of_isDigits h
  by_cases hv : ∃ c ∈ t, digitValue? c = none
  · obtain ⟨c, hc, hn⟩ := hv
    have hu : c ≠ '_' := by
      rintro rfl
      exact absurd (hlike _ hc) (by decide +kernel)
    have hds := digits?_eq_none_of_mem hc hn hu
    exact iff_of_true (by simp [natural?, hds]) (.inl ⟨c, hc, hn⟩)
  · have hne : t ≠ [] := by
      rintro rfl
      simp [isDigits] at h
    obtain ⟨ds, hds, hl⟩ := digits?_isSome hne fun c hc hn => hv ⟨c, hc, hn⟩
    simp [natural?, hds, hv, hl]

theorem integer?_eq_none_iff {t : Text} (h : isDigits t = true) :
    integer? t = none ↔ IsUnreadable t := by
  have hlike := isDigitLike_of_isDigits h
  have htrim : trimBy isSpace t = t :=
    trimBy_eq_self fun c hc => isSpace_of_isBlank (isBlank_of_isDigitLike (hlike c hc))
  rw [IsUnreadable, and_iff_right h, ← natural?_eq_none_iff h, integer?, htrim]
  split
  · exact absurd (hlike '-' List.mem_cons_self) (by decide +kernel)
  · exact absurd (hlike '+' List.mem_cons_self) (by decide +kernel)
  · cases natural? t <;> simp

/-- The information separators U+001C to U+001F count as blanks where a text is trimmed, but not
where it is read as a number. -/
def isSeparator (c : Char) : Bool :=
  isBlank c && !isSpace c

theorem integer?_eq_none_of_separator {t : Text} {c : Char} (hc : c ∈ t)
    (hs : isSeparator c = true) : integer? t = none := by
  simp only [isSeparator, Bool.and_eq_true, Bool.not_eq_true'] at hs
  have hv : digitValue? c = none := by
    cases hv : digitValue? c with
    | none => rfl
    | some d => simp [isBlank_of_isDigitLike (c := c) (by simp [isDigitLike, hv])] at hs
  have hne {m : Char} (hm : isBlank m = false) : c ≠ m := by
    rintro rfl
    simp [hm] at hs
  -- numbers are read without the spaces around them, of which a separator is none
  have hm := mem_trimBy hc hs.2
  have hnone {u : Text} (hu : c ∈ u) : natural? u = none := by
    simp [natural?, digits?_eq_none_of_mem hu hv (hne (by decide))]
  rw [integer?]
  split
  · rename_i ds he
    rw [he] at hm
    rw [hnone ((List.mem_cons.mp hm).resolve_left (hne (by decide)))]
    rfl
  · rename_i ds he
    rw [he] at hm
    rw [hnone ((List.mem_cons.mp hm).resolve_left (hne (by decide)))]
    rfl
  · rw [hnone hm]
    rfl

theorem integer?_eq_none_iff_of_strip {t : Text} (h : isDigits (strip t) = true) :
    integer? t = none ↔ IsUnreadable (strip t) ∨ ∃ c ∈ t, isSeparator c = true := by
  by_cases hs : ∃ c ∈ t, isSeparator c = true
  · obtain ⟨c, hc, hsep⟩ := hs
    exact iff_of_true (integer?_eq_none_of_separator hc hsep) (.inr ⟨c, hc, hsep⟩)
  · have hspace : ∀ c ∈ t, isSpace c = isBlank c := by
      intro c hc
      have hn : ¬ isSeparator c = true := fun hsep => hs ⟨c, hc, hsep⟩
      cases hb : isBlank c with
      | false => exact isSpace_of_isBlank hb
      | true => simpa [isSeparator, hb] using hn
    have htrim : trimBy isSpace t = trimBy isSpace (strip t) := by
      rw [trimBy_congr hspace]
      exact (trimBy_eq_self fun c hc =>
        isSpace_of_isBlank (isBlank_of_isDigitLike (isDigitLike_of_isDigits h c hc))).symm
    have hread : integer? t = integer? (strip t) := by
      rw [integer?, integer?, htrim]
    rw [hread, integer?_eq_none_iff h]
    simp [hs]

end ArticleArchive.Text
