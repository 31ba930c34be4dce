import ArticleArchive.Proofs.Calendar.Clocks
import ArticleArchive.Proofs.Calendar.Timestamps
import ArticleArchive.Proofs.Text.Trim

namespace ArticleArchive

open Text

namespace Date

def basicText (d : Date) : Text :=
  paddedDigits 4 d.year ++ (paddedDigits 2 d.month ++ paddedDigits 2 d.day)

/-- A text spells a calendar date, with hyphens or without. -/
def IsSpelled (d : Date) (x : Text) : Prop :=
  x = d.text ∨ x = d.basicText

theorem isDigit_of_asciiNumber? {t : Text} {n : Nat} (h : asciiNumber? t = some n) :
    ∀ c ∈ t, c.isDigit = true := by
  unfold asciiNumber? at h
  split at h
  · exact List.all_eq_true.mp (by assumption)
  · simp at h

/-- A spelled day is taken for a calendar date whatever follows it, since no digit is a `W`. -/
theorem ofIso?_spelled {d : Date} {x : Text} (h : d.IsSpelled x) (rest : Text) :
    isoLength (x ++ rest) = x.length ∧ ofIso? x = some d := by
  have ⟨hy, hm, hd⟩ := d.parts_lt
  obtain ⟨y1, y2, y3, y4, hyear, hyear'⟩ := exists_paddedDigits_four hy
  obtain ⟨m1, m2, hmonth, hmonth'⟩ := exists_paddedDigits_two hm
  obtain ⟨d1, d2, hday, hday'⟩ := exists_paddedDigits_two hd
  -- a week would be spelled with a `W` where the month starts, which is no digit
  have hm1 : m1 ≠ 'W' ∧ m1 ≠ '-' := by
    have hdigit := isDigit_of_asciiNumber? hmonth' m1 List.mem_cons_self
    constructor <;> (rintro rfl; exact absurd hdigit (by decide))
  have hy4 : y4 ≠ '-' := by
    rintro rfl
    exact absurd (isDigit_of_asciiNumber? hyear' '-' (by simp)) (by decide)
  have hfields : ofFields? d.year d.month d.day = some d :=
    ofFields?_eq_some_iff.mpr ⟨rfl, rfl, rfl⟩
  rcases h with rfl | rfl
  · have htext : d.text = [y1, y2, y3, y4, '-', m1, m2, '-', d1, d2] := by
      rw [text, hyear, hmonth, hday]
      rfl
    rw [htext]
    constructor
    · simp [isoLength, hm1.1]
    · simp [ofIso?, hm1.1, hyear', hmonth', hday', hfields]
  · have htext : d.basicText = [y1, y2, y3, y4, m1, m2, d1, d2] := by
      rw [basicText, hyear, hmonth, hday]
      rfl
    rw [htext]
    constructor
    · simp [isoLength, hm1]
    · simp [ofIso?, hm1, hyear', hmonth', hday', hfields]

end Date

namespace UtcOffset

/-- A text spells an offset: `Z` for none, or a sign and a clock time that has all of it. -/
def IsSpelled (o : UtcOffset) (y : Text) : Prop :=
  o = zero ∧ y = ['Z'] ∨ ∃ colons p, Precision.micros p ∣ o.micros.natAbs ∧
    y = (if o.micros < 0 then '-' else '+') :: (Clock.ofMicros o.micros.natAbs).spelled colons p

/-- The offset for which a spelled one is taken: none if it is shorter than a second. -/
def asRead (o : UtcOffset) : UtcOffset :=
  if o.micros.natAbs < 1000000 then zero else o

theorem ofMicros?_micros (o : UtcOffset) : ofMicros? o.micros = some o :=
  dif_pos ⟨o.above, o.below⟩

theorem ofClock?_ofMicros (o : UtcOffset) :
    ofClock? (decide (o.micros < 0)) (Clock.ofMicros o.micros.natAbs) = some o.asRead := by
  rw [ofClock?, Clock.micros_ofMicros, asRead]
  split
  · rfl
  · have hsigned : (if decide (o.micros < 0) = true then -(o.micros.natAbs : Int)
        else o.micros.natAbs) = o.micros := by
      simp only [decide_eq_true_eq]
      split <;> omega
    rw [hsigned, ofMicros?_micros]

theorem ofIso?_spelled {o : UtcOffset} {y : Text} (h : o.IsSpelled y) :
    ofIso? y = some o.asRead := by
  rcases h with ⟨rfl, rfl⟩ | ⟨colons, p, hp, rfl⟩
  · rfl
  · have hlt : o.micros.natAbs < dayMicros := by
      have habove := o.above
      have hbelow := o.below
      omega
    have hread := Clock.read_spelled_ofMicros colons hlt hp
    have hclock := o.ofClock?_ofMicros
    by_cases hneg : o.micros < 0
    · simp only [hneg, decide_true, if_true] at hclock ⊢
      simp [ofIso?, hread, isTextEnd, hclock]
    · simp only [hneg, decide_false, if_false] at hclock ⊢
      simp [ofIso?, hread, isTextEnd, hclock]

theorem IsSpelled.exists_eq_cons {o : UtcOffset} {y : Text} (h : o.IsSpelled y) :
    ∃ c rest, y = c :: rest ∧ DateTime.startsOffset c = true := by
  rcases h with ⟨-, rfl⟩ | ⟨colons, p, -, rfl⟩
  · exact ⟨'Z', [], rfl, rfl⟩
  · refine ⟨_, _, rfl, ?_⟩
    split <;> rfl

end UtcOffset

namespace DateTime

variable {t : DateTime} {x y : Text}

/-- A text spells a local time: a day, any character and a clock time that has all of the time. -/
def IsSpelled (t : DateTime) (x : Text) : Prop :=
  ∃ date mark colons p, t.date.IsSpelled date ∧ Precision.micros p ∣ t.micros ∧
    x = date ++ mark :: (Clock.ofMicros t.micros).spelled colons p

theorem not_startsOffset_of_mem_spelled {clock : Clock} {colons : Bool} {p : Precision} {c : Char}
    (h : c ∈ clock.spelled colons p) : startsOffset c = false := by
  rcases Clock.mem_spelled h with hd | rfl | rfl
  · have := toNat_of_isDigit hd
    simp only [startsOffset, Bool.or_eq_false_iff, beq_eq_false_iff_ne]
    refine ⟨⟨?_, ?_⟩, ?_⟩ <;> (rintro rfl; revert this; decide)
  · rfl
  · rfl

theorem ofIsoTime?_spelled (colons : Bool) {p : Precision} (hp : p.micros ∣ t.micros)
    (hy : ∀ c ∈ y.head?, startsOffset c = true) :
    ofIsoTime? t.date ((Clock.ofMicros t.micros).spelled colons p ++ y) =
      if y.isEmpty then some (t, none) else (UtcOffset.ofIso? y).map fun o => (t, some o) := by
  have hpart : ∀ c ∈ (Clock.ofMicros t.micros).spelled colons p, (!startsOffset c) = true :=
    fun c hc => by simp [not_startsOffset_of_mem_spelled hc]
  have hstop : y.takeWhile (fun c => !startsOffset c) = [] ∧
      y.dropWhile (fun c => !startsOffset c) = y := by
    cases y with
    | nil => simp
    | cons c cs => simp [hy c rfl]
  have htime : ofFields? t.date (Clock.ofMicros t.micros).hour (Clock.ofMicros t.micros).minute
      (Clock.ofMicros t.micros).second (Clock.ofMicros t.micros).micro = some t :=
    t.ofFields?_parts
  rw [ofIsoTime?, List.takeWhile_append_of_pos hpart, List.dropWhile_append_of_pos hpart, hstop.1,
    hstop.2, List.append_nil, Clock.read_spelled_ofMicros colons t.micros_lt hp]
  simp only [Option.bind_eq_bind, Option.bind_some, htime]
  split
  · simp [isTextEnd]
  · cases UtcOffset.ofIso? y <;> rfl

theorem ofIso?_spelled_append (h : t.IsSpelled x) (hy : ∀ c ∈ y.head?, startsOffset c = true) :
    ofIso? (x ++ y) =
      if y.isEmpty then some (t, none) else (UtcOffset.ofIso? y).map fun o => (t, some o) := by
  obtain ⟨date, mark, colons, p, hdate, hp, rfl⟩ := h
  rw [List.append_assoc, List.cons_append]
  obtain ⟨hlength, hday⟩ := Date.ofIso?_spelled hdate
    (mark :: ((Clock.ofMicros t.micros).spelled colons p ++ y))
  rw [ofIso?, hlength, List.take_left, List.drop_left, hday]
  exact ofIsoTime?_spelled colons hp hy

theorem ofIso?_spelled (h : t.IsSpelled x) : ofIso? x = some (t, none) := by
  simpa using ofIso?_spelled_append (y := []) h (by simp)

theorem ofIso?_spelled_offset {o : UtcOffset} (h : t.IsSpelled x) (ho : o.IsSpelled y) :
    ofIso? (x ++ y) = some (t, some o.asRead) := by
  have hoffset := UtcOffset.ofIso?_spelled ho
  obtain ⟨c, rest, rfl, hc⟩ := ho.exists_eq_cons
  rw [ofIso?_spelled_append h (by simpa using hc), if_neg (by simp), hoffset]
  rfl

theorem text_eq (t : DateTime) :
    t.text = t.date.text ++ 'T' ::
      (Clock.ofMicros t.micros).spelled true (if t.micro = 0 then .second else .micro) := by
  rw [text]
  split
  · rw [List.append_nil]
    rfl
  · rfl

theorem isSpelled_text (t : DateTime) : t.IsSpelled t.text := by
  refine ⟨t.date.text, 'T', true, _, .inl rfl, ?_, t.text_eq⟩
  split
  · rename_i h
    simp only [micro] at h
    exact Nat.dvd_of_mod_eq_zero h
  · exact Nat.one_dvd _

theorem ofIso?_text (t : DateTime) : ofIso? t.text = some (t, none) :=
  ofIso?_spelled t.isSpelled_text

theorem strip_text (t : DateTime) : strip t.text = t.text := by
  refine trimBy_eq_self fun c hc => ?_
  rw [text_eq, Date.text] at hc
  simp only [List.mem_append, List.mem_cons] at hc
  rcases hc with (h | rfl | h | rfl | h) | rfl | h
  · exact isBlank_of_isDigit (isDigit_of_mem_paddedDigits h)
  · rfl
  · exact isBlank_of_isDigit (isDigit_of_mem_paddedDigits h)
  · rfl
  · exact isBlank_of_isDigit (isDigit_of_mem_paddedDigits h)
  · rfl
  · rcases Clock.mem_spelled h with h | rfl | rfl
    · exact isBlank_of_isDigit h
    · rfl
    · rfl

end DateTime

end ArticleArchive
