import ArticleArchive.Calendar.DateTime
import ArticleArchive.Number.Binary64

namespace ArticleArchive

open Text (asciiNumber?)

namespace Date

/-- Monday is 0. -/
def weekday (dayNumber : Nat) : Nat :=
  (dayNumber + 6) % 7

/-- A year has a 53rd week when it starts on a Thursday, or on a Wednesday in a leap year. -/
def weeksInYear (year : Nat) : Nat :=
  let first := weekday (daysBeforeYear year + 1)
  if first = 3 ∨ (first = 2 ∧ isLeapYear year = true) then 53 else 52

/-- The running number of the Monday of the first week, the one that holds the first Thursday. -/
def firstMonday (year : Nat) : Int :=
  let first := daysBeforeYear year + 1
  let monday : Int := (first : Int) - weekday first
  if 3 < weekday first then monday + 7 else monday

def ofWeek? (year week day : Nat) : Option Date :=
  if 1 ≤ year ∧ 1 ≤ week ∧ week ≤ weeksInYear year ∧ 1 ≤ day ∧ day ≤ 7 then
    ofDayNumber? (firstMonday year + ((week - 1) * 7 + day - 1 : Nat))
  else none

/-- The day that one of the forms `YYYY-MM-DD`, `YYYYMMDD`, `YYYY-Www-D`, `YYYY-Www`, `YYYYWwwD`
and `YYYYWww` names; the day of a week is the Monday when it is left out. -/
def ofIso? (t : Text) : Option Date :=
  match t with
  | [y1, y2, y3, y4, '-', 'W', w1, w2, '-', d] => do
    ofWeek? (← asciiNumber? [y1, y2, y3, y4]) (← asciiNumber? [w1, w2]) (← asciiNumber? [d])
  | [y1, y2, y3, y4, '-', m1, m2, '-', d1, d2] => do
    ofFields? (← asciiNumber? [y1, y2, y3, y4]) (← asciiNumber? [m1, m2]) (← asciiNumber? [d1, d2])
  | [y1, y2, y3, y4, '-', 'W', w1, w2] => do
    ofWeek? (← asciiNumber? [y1, y2, y3, y4]) (← asciiNumber? [w1, w2]) 1
  | [y1, y2, y3, y4, 'W', w1, w2, d] => do
    ofWeek? (← asciiNumber? [y1, y2, y3, y4]) (← asciiNumber? [w1, w2]) (← asciiNumber? [d])
  | [y1, y2, y3, y4, m1, m2, d1, d2] => do
    ofFields? (← asciiNumber? [y1, y2, y3, y4]) (← asciiNumber? [m1, m2]) (← asciiNumber? [d1, d2])
  | [y1, y2, y3, y4, 'W', w1, w2] => do
    ofWeek? (← asciiNumber? [y1, y2, y3, y4]) (← asciiNumber? [w1, w2]) 1
  | _ => none

/-- How many characters the date at the beginning of a text takes. After `YYYY-Www` a hyphen
starts the day of the week, unless the time seems to follow it; after `YYYYWww` an odd number of
digits starts with the day of the week. -/
def isoLength (t : Text) : Nat :=
  match t.drop 4 with
  | '-' :: 'W' :: _ :: _ :: '-' :: _ :: c :: _ => if c.isDigit then 8 else 10
  | '-' :: 'W' :: _ :: _ :: '-' :: _ => 10
  | '-' :: 'W' :: _ => 8
  | '-' :: _ => 10
  | 'W' :: _ =>
    let digits := ((t.drop 7).takeWhile Char.isDigit).length
    if digits = 0 then 7 else if digits = 1 then 8 else if digits % 2 = 0 then 8 else 7
  | _ => if t.length = 7 then 7 else 8

end Date

/-- The numbers written for a time of day or an offset, not yet checked. -/
structure Clock where
  hour : Nat := 0
  minute : Nat := 0
  second : Nat := 0
  micro : Nat := 0

namespace Clock

/-- Up to six digits are microseconds; more digits are passed over. -/
def readMicros (clock : Clock) (t : Text) : Option (Clock × Text) := do
  let head := t.take 6
  let n ← asciiNumber? head
  let rest := (t.drop 6).dropWhile Char.isDigit
  return ({ clock with micro := n * 10 ^ (6 - head.length) }, rest)

/-- What follows the pair of digits for one part of the time: the end, perhaps after one more
character of ASCII, a mark before decimals, or the next part. -/
def readAfter (next : Clock → Bool → Text → Option (Clock × Text)) (clock : Clock)
    (colons : Bool) (t : Text) : Option (Clock × Text) :=
  match t with
  | [] => some (clock, [])
  | [c] => if c.toNat < 0x80 then some (clock, [c]) else none
  | c :: cs =>
    if colons && c == ':' then next clock colons cs
    else if c = '.' ∨ c = ',' then clock.readMicros cs
    else if colons then none
    else next clock colons (c :: cs)

def readPair (t : Text) : Option (Nat × Text) :=
  match t with
  | a :: b :: cs => (asciiNumber? [a, b]).map fun n => (n, cs)
  | _ => none

def readSecond (clock : Clock) (colons : Bool) (t : Text) : Option (Clock × Text) := do
  let (n, r) ← readPair t
  readAfter (fun clock _ r => clock.readMicros r) { clock with second := n } colons r

def readMinute (clock : Clock) (colons : Bool) (t : Text) : Option (Clock × Text) := do
  let (n, r) ← readPair t
  readAfter readSecond { clock with minute := n } colons r

/-- The clock at the beginning of a text and what is left unread. The parts are set apart by
colons when the first is. -/
def read (t : Text) : Option (Clock × Text) := do
  let (n, r) ← readPair t
  readAfter readMinute { hour := n } (r.head? == some ':') r

def micros (clock : Clock) : Nat :=
  ((clock.hour * 60 + clock.minute) * 60 + clock.second) * 1000000 + clock.micro

end Clock

/-- Whether nothing counts in the rest of a text: it is empty or starts with U+0000. -/
def isTextEnd (t : Text) : Bool :=
  t.isEmpty || t.head? == some '\x00'

namespace UtcOffset

/-- An offset of no whole second is zero. -/
def ofClock? (negative : Bool) (clock : Clock) : Option UtcOffset :=
  if clock.micros < 1000000 then some zero
  else ofMicros? (if negative then -(clock.micros : Int) else clock.micros)

def ofIso? (t : Text) : Option UtcOffset :=
  match t with
  | 'Z' :: rest => if isTextEnd rest then some zero else none
  | sign :: rest =>
    match Clock.read rest with
    | some (clock, left) => if isTextEnd left then ofClock? (sign == '-') clock else none
    | none => none
  | [] => none

end UtcOffset

namespace DateTime

/-- The offset starts at the first sign or `Z`. -/
def startsOffset (c : Char) : Bool :=
  c == '+' || c == '-' || c == 'Z'

def ofIsoTime? (d : Date) (t : Text) : Option (DateTime × Option UtcOffset) := do
  let (clock, left) ← Clock.read (t.takeWhile fun c => !startsOffset c)
  let offsetText := t.dropWhile fun c => !startsOffset c
  let time := ofFields? d clock.hour clock.minute clock.second clock.micro
  if offsetText.isEmpty then
    if isTextEnd left then return (← time, none) else none
  else
    let offset ← UtcOffset.ofIso? offsetText
    return (← time, some offset)

def ofIso? (t : Text) : Option (DateTime × Option UtcOffset) := do
  let n := Date.isoLength t
  let d ← Date.ofIso? (t.take n)
  match t.drop n with
  | [] => return (midnight d, none)
  | _ :: time => ofIsoTime? d time

end DateTime

end ArticleArchive
