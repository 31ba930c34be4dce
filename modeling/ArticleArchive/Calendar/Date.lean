import ArticleArchive.Text.Numeral

namespace ArticleArchive

open Text (asciiNumber? paddedDigits)

def isLeapYear (year : Nat) : Bool :=
  year % 4 == 0 && (year % 100 != 0 || year % 400 == 0)

def daysInMonth (year month : Nat) : Nat :=
  if month = 2 then (if isLeapYear year then 29 else 28)
  else if month = 4 ∨ month = 6 ∨ month = 9 ∨ month = 11 then 30
  else 31

structure Date where
  year : Nat
  month : Nat
  day : Nat
  year_range : 1 ≤ year ∧ year ≤ 9999
  month_range : 1 ≤ month ∧ month ≤ 12
  day_range : 1 ≤ day ∧ day ≤ daysInMonth year month
  deriving DecidableEq

namespace Date

def ofFields? (year month day : Nat) : Option Date :=
  if hy : 1 ≤ year ∧ year ≤ 9999 then
    if hm : 1 ≤ month ∧ month ≤ 12 then
      if hd : 1 ≤ day ∧ day ≤ daysInMonth year month then some ⟨year, month, day, hy, hm, hd⟩
      else none
    else none
  else none

/-- The number spelled by the eight digits of a date; later days have greater ranks. -/
def rank (d : Date) : Nat :=
  d.year * 10000 + d.month * 100 + d.day

def daysBeforeYear (year : Nat) : Nat :=
  let y := year - 1
  y * 365 + y / 4 - y / 100 + y / 400

def daysBeforeMonth (year month : Nat) : Nat :=
  (List.range (month - 1)).foldr (fun m n => daysInMonth year (m + 1) + n) 0

/-- The running number of a day; the first of January of the year 1 has the number 1. -/
def dayNumber (d : Date) : Nat :=
  daysBeforeYear d.year + daysBeforeMonth d.year d.month + d.day

def monthDay? (year : Nat) (months : List Nat) (day : Nat) : Option Date :=
  match months with
  | [] => none
  | m :: ms =>
    if day ≤ daysInMonth year m then ofFields? year m day
    else monthDay? year ms (day - daysInMonth year m)

def ofDayNumber? (n : Int) : Option Date :=
  if n < 1 then none
  else
    let n0 := n.toNat - 1
    let c400 := n0 / 146097
    let n400 := n0 % 146097
    let c100 := min 3 (n400 / 36524)
    let n100 := n400 - c100 * 36524
    let c4 := n100 / 1461
    let n4 := n100 % 1461
    let c1 := min 3 (n4 / 365)
    let year := c400 * 400 + c100 * 100 + c4 * 4 + c1 + 1
    monthDay? year [1, 2, 3, 4, 5, 6, 7, 8, 9, 10, 11, 12] (n4 - c1 * 365 + 1)

/-- The day after, unless it falls in the year 10000. -/
def next? (d : Date) : Option Date :=
  if d.day < daysInMonth d.year d.month then ofFields? d.year d.month (d.day + 1)
  else if d.month < 12 then ofFields? d.year (d.month + 1) 1
  else ofFields? (d.year + 1) 1 1

/-- The day before, unless it falls in the year 0. -/
def previous? (d : Date) : Option Date :=
  if 1 < d.day then ofFields? d.year d.month (d.day - 1)
  else if 1 < d.month then ofFields? d.year (d.month - 1) (daysInMonth d.year (d.month - 1))
  else ofFields? (d.year - 1) 12 31

def text (d : Date) : Text :=
  paddedDigits 4 d.year ++ '-' :: (paddedDigits 2 d.month ++ '-' :: paddedDigits 2 d.day)

/-- The day that a text of the form `YYYY-MM-DD` names. -/
def ofText? (t : Text) : Option Date :=
  match t with
  | [y1, y2, y3, y4, '-', m1, m2, '-', d1, d2] => do
    ofFields? (← asciiNumber? [y1, y2, y3, y4]) (← asciiNumber? [m1, m2]) (← asciiNumber? [d1, d2])
  | _ => none

end Date

end ArticleArchive
