import ArticleArchive.Calendar.Date

namespace ArticleArchive

open Text (paddedDigits)

def dayMicros : Nat := 86400000000

/-- A time of day, `micros` microseconds after midnight. -/
structure DateTime where
  date : Date
  micros : Nat
  micros_lt : micros < dayMicros
  deriving DecidableEq

/-- The microseconds by which a local time is ahead of universal time. -/
structure UtcOffset where
  micros : Int
  above : -(dayMicros : Int) < micros
  below : micros < dayMicros

namespace UtcOffset

def ofMicros? (micros : Int) : Option UtcOffset :=
  if h : -(dayMicros : Int) < micros ∧ micros < dayMicros then some ⟨micros, h.1, h.2⟩ else none

def zero : UtcOffset :=
  ⟨0, by decide, by decide⟩

end UtcOffset

namespace DateTime

def midnight (d : Date) : DateTime :=
  ⟨d, 0, by decide⟩

def ofMicros? (d : Date) (micros : Nat) : Option DateTime :=
  if h : micros < dayMicros then some ⟨d, micros, h⟩ else none

def ofFields? (d : Date) (hour minute second micro : Nat) : Option DateTime :=
  if hour < 24 ∧ minute < 60 ∧ second < 60 ∧ micro < 1000000 then
    ofMicros? d (((hour * 60 + minute) * 60 + second) * 1000000 + micro)
  else none

def hour (t : DateTime) : Nat := t.micros / 3600000000
def minute (t : DateTime) : Nat := t.micros / 60000000 % 60
def second (t : DateTime) : Nat := t.micros / 1000000 % 60
def micro (t : DateTime) : Nat := t.micros % 1000000

/-- Later times have greater ranks. -/
def rank (t : DateTime) : Nat :=
  t.date.rank * dayMicros + t.micros

/-- Microseconds since the midnight before the first day of the calendar. -/
def instant (t : DateTime) : Int :=
  t.date.dayNumber * dayMicros + t.micros

/-- The universal time of a local time, unless it lies outside the calendar. -/
def toUtc? (t : DateTime) (offset : UtcOffset) : Option DateTime :=
  let m : Int := t.micros - offset.micros
  if m < 0 then t.date.previous?.bind fun d => ofMicros? d (m + dayMicros).toNat
  else if m < dayMicros then ofMicros? t.date m.toNat
  else t.date.next?.bind fun d => ofMicros? d (m - dayMicros).toNat

/-- `YYYY-MM-DDThh:mm:ss`, with six digits of a second after it when they are not all zero. -/
def text (t : DateTime) : Text :=
  t.date.text ++ 'T' :: (paddedDigits 2 t.hour ++ ':' :: (paddedDigits 2 t.minute ++
    ':' :: (paddedDigits 2 t.second ++
      if t.micro = 0 then [] else '.' :: paddedDigits 6 t.micro)))

end DateTime

end ArticleArchive
