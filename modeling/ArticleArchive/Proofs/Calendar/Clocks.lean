import ArticleArchive.Calendar.DateTime
import ArticleArchive.Calendar.IsoFormat
import ArticleArchive.Proofs.Text.Numerals

namespace ArticleArchive

open Text

inductive Precision where
  | hour
  | minute
  | second
  | micro

namespace Precision

def micros : Precision → Nat
  | hour => 3600000000
  | minute => 60000000
  | second => 1000000
  | micro => 1

end Precision

namespace Clock

def ofMicros (n : Nat) : Clock :=
  ⟨n / 3600000000, n / 60000000 % 60, n / 1000000 % 60, n % 1000000⟩

theorem micros_ofMicros (n : Nat) : (ofMicros n).micros = n := by
  simp only [ofMicros, micros]
  omega

def separator (colons : Bool) : Text :=
  if colons then [':'] else []

def spelled (clock : Clock) (colons : Bool) (p : Precision) : Text :=
  paddedDigits 2 clock.hour ++ match p with
  | .hour => []
  | .minute => separator colons ++ paddedDigits 2 clock.minute
  | .second => separator colons ++ (paddedDigits 2 clock.minute ++
      (separator colons ++ paddedDigits 2 clock.second))
  | .micro => separator colons ++ (paddedDigits 2 clock.minute ++
      (separator colons ++ (paddedDigits 2 clock.second ++ '.' :: paddedDigits 6 clock.micro)))

theorem readMicros_paddedDigits (clock : Clock) {n : Nat} (h : n < 1000000) :
    clock.readMicros (paddedDigits 6 n) = some ({ clock with micro := n }, []) := by
  have hl : (paddedDigits 6 n).length = 6 := length_paddedDigits 6 n (by decide) h
  have htake : (paddedDigits 6 n).take 6 = paddedDigits 6 n := List.take_of_length_le (by omega)
  have hdrop : (paddedDigits 6 n).drop 6 = [] := List.drop_of_length_le (by omega)
  simp [readMicros, htake, hdrop, hl, asciiNumber?_paddedDigits]

theorem readPair_append {n : Nat} (h : n < 100) (r : Text) :
    readPair (paddedDigits 2 n ++ r) = some (n, r) := by
  obtain ⟨a, b, hn, hn'⟩ := exists_paddedDigits_two h
  rw [hn]
  simp [readPair, hn']

theorem readPair_paddedDigits {n : Nat} (h : n < 100) :
    readPair (paddedDigits 2 n) = some (n, []) := by
  simpa using readPair_append h []

theorem exists_paddedDigits_of_no_mark {n : Nat} (h : n < 100) :
    ∃ a b, paddedDigits 2 n = [a, b] ∧ a ≠ ':' ∧ a ≠ '.' ∧ a ≠ ',' := by
  obtain ⟨a, b, hn, -⟩ := exists_paddedDigits_two h
  have ha : a.isDigit = true := isDigit_of_mem_paddedDigits (hn ▸ List.mem_cons_self)
  refine ⟨a, b, hn, ?_, ?_, ?_⟩ <;> (rintro rfl; simp at ha)

variable {clock : Clock} {colons : Bool} {h m s u : Nat}

theorem readAfter_paddedDigits (next : Clock → Bool → Text → Option (Clock × Text)) (hm : m < 100)
    (r : Text) : readAfter next clock colons (separator colons ++ (paddedDigits 2 m ++ r)) =
      next clock colons (paddedDigits 2 m ++ r) := by
  obtain ⟨a, b, hdigits, -, hdot, hcomma⟩ := exists_paddedDigits_of_no_mark hm
  rw [hdigits]
  cases colons <;> simp [readAfter, separator, hdot, hcomma]

theorem head?_separator (hm : m < 100) (r : Text) :
    ((separator colons ++ (paddedDigits 2 m ++ r)).head? == some ':') = colons := by
  obtain ⟨a, b, hdigits, hcolon, -⟩ := exists_paddedDigits_of_no_mark hm
  rw [hdigits]
  cases colons <;> simp [separator, hcolon]

theorem readSecond_paddedDigits (hs : s < 100) :
    readSecond clock colons (paddedDigits 2 s) = some ({ clock with second := s }, []) := by
  simp [readSecond, readPair_paddedDigits hs, readAfter]

theorem readSecond_decimals (hs : s < 100) (hu : u < 1000000) :
    readSecond clock colons (paddedDigits 2 s ++ '.' :: paddedDigits 6 u) =
      some ({ clock with second := s, micro := u }, []) := by
  have hlen : (paddedDigits 6 u).length = 6 := length_paddedDigits 6 u (by decide) hu
  have hmicros := fun clock => readMicros_paddedDigits clock hu
  obtain ⟨d, ds, hds⟩ : ∃ d ds, paddedDigits 6 u = d :: ds :=
    List.exists_cons_of_length_pos (by omega)
  rw [hds] at hmicros ⊢
  simp [readSecond, readPair_append hs, readAfter, hmicros]

theorem readMinute_paddedDigits (hm : m < 100) :
    readMinute clock colons (paddedDigits 2 m) = some ({ clock with minute := m }, []) := by
  simp [readMinute, readPair_paddedDigits hm, readAfter]

theorem readMinute_append (clock : Clock) (colons : Bool) (hm : m < 100) (hs : s < 100) (r : Text) :
    readMinute clock colons (paddedDigits 2 m ++ (separator colons ++ (paddedDigits 2 s ++ r))) =
      readSecond { clock with minute := m } colons (paddedDigits 2 s ++ r) := by
  rw [readMinute, readPair_append hm]
  exact readAfter_paddedDigits readSecond hs r

theorem read_paddedDigits (hh : h < 100) : read (paddedDigits 2 h) = some ({ hour := h }, []) := by
  simp [read, readPair_paddedDigits hh, readAfter]

theorem read_append (colons : Bool) (hh : h < 100) (hm : m < 100) (r : Text) :
    read (paddedDigits 2 h ++ (separator colons ++ (paddedDigits 2 m ++ r))) =
      readMinute { hour := h } colons (paddedDigits 2 m ++ r) := by
  rw [read, readPair_append hh]
  simp only [Option.bind_eq_bind, Option.bind_some, head?_separator hm r]
  exact readAfter_paddedDigits readMinute hm r

def upTo (p : Precision) (clock : Clock) : Clock :=
  match p with
  | .hour => { hour := clock.hour }
  | .minute => { hour := clock.hour, minute := clock.minute }
  | .second => { hour := clock.hour, minute := clock.minute, second := clock.second }
  | .micro => clock

theorem upTo_ofMicros {p : Precision} {n : Nat} (h : p.micros ∣ n) :
    (ofMicros n).upTo p = ofMicros n := by
  cases p with
  | micro => rfl
  | _ =>
    simp only [Precision.micros] at h
    simp only [upTo, ofMicros, mk.injEq, true_and]
    omega

theorem read_spelled (colons : Bool) (p : Precision) (hh : clock.hour < 100)
    (hm : clock.minute < 100) (hs : clock.second < 100) (hu : clock.micro < 1000000) :
    read (clock.spelled colons p) = some (clock.upTo p, []) := by
  cases p with
  | hour => simp [spelled, upTo, read_paddedDigits hh]
  | minute =>
    have hread := read_append colons hh hm []
    rw [List.append_nil] at hread
    rw [spelled, hread, readMinute_paddedDigits hm, upTo]
  | second =>
    have hread := readMinute_append { hour := clock.hour } colons hm hs []
    rw [List.append_nil] at hread
    rw [spelled, read_append colons hh hm, hread, readSecond_paddedDigits hs, upTo]
  | micro =>
    rw [spelled, read_append colons hh hm, readMinute_append _ colons hm hs,
      readSecond_decimals hs hu, upTo]

/-- A time of day is read back where all that it has is spelled out. -/
theorem read_spelled_ofMicros (colons : Bool) {p : Precision} {n : Nat} (hn : n < dayMicros)
    (hp : p.micros ∣ n) : read ((ofMicros n).spelled colons p) = some (ofMicros n, []) := by
  have hhour : n / 3600000000 < 100 := by rw [dayMicros] at hn; omega
  have hminute : n / 60000000 % 60 < 100 := by omega
  have hsecond : n / 1000000 % 60 < 100 := by omega
  have hmicro : n % 1000000 < 1000000 := by omega
  rw [read_spelled colons p hhour hminute hsecond hmicro, upTo_ofMicros hp]

theorem mem_spelled {p : Precision} {c : Char} (h : c ∈ clock.spelled colons p) :
    c.isDigit = true ∨ c = ':' ∨ c = '.' := by
  have hdigit : ∀ {w n : Nat}, c ∈ paddedDigits w n → c.isDigit = true :=
    isDigit_of_mem_paddedDigits
  have hcolon : c ∈ separator colons → c = ':' := by cases colons <;> simp [separator]
  cases p <;> simp only [spelled, List.mem_append, List.mem_cons] at h <;> grind

end Clock

end ArticleArchive
