import ArticleArchive.Calendar.DateTime
import ArticleArchive.Number.Binary64

namespace ArticleArchive

open Text (asciiNumber?)

namespace UtcOffset

def ofHoursMinutes? (negative : Bool) (hours minutes : Nat) : Option UtcOffset :=
  let micros : Int := ((hours * 60 + minutes) * 60000000 : Nat)
  if minutes < 60 then ofMicros? (if negative then -micros else micros) else none

/-- Whether a sign stands for minus; there are two such signs. -/
def isNegative? (sign : Char) : Option Bool :=
  if sign = '+' then some false
  else if sign = '-' ∨ sign = '\u2212' then some true
  else none

def ofSignedDigits? (sign h1 h2 m1 m2 : Char) : Option UtcOffset := do
  ofHoursMinutes? (← isNegative? sign) (← asciiNumber? [h1, h2]) (← asciiNumber? [m1, m2])

/-- The offset at the end of a timestamp: none, `Z`, or a sign with hours and minutes. -/
def ofTimestampEnd? (t : Text) : Option (Option UtcOffset) :=
  match t with
  | [] => some none
  | ['Z'] => some (some zero)
  | ['z'] => some (some zero)
  | [sign, h1, h2, ':', m1, m2] => (ofSignedDigits? sign h1 h2 m1 m2).map some
  | [sign, h1, h2, m1, m2] => (ofSignedDigits? sign h1 h2 m1 m2).map some
  | _ => none

end UtcOffset

namespace DateTime

/-- The decimals of a second as microseconds; there has to be one, and more than six are passed
over. -/
def readDecimals? (t : Text) : Option (Nat × Text) :=
  let digits := t.takeWhile Char.isDigit
  let head := digits.take 6
  if digits.isEmpty then none
  else (asciiNumber? head).map fun n => (n * 10 ^ (6 - head.length), t.drop digits.length)

def isDecimalMark (c : Char) : Bool :=
  c == '.' || c == ','

def readSeconds? (t : Text) : Option (Nat × Nat × Text) :=
  match t with
  | ':' :: s1 :: s2 :: rest => do
    let second ← asciiNumber? [s1, s2]
    match rest with
    | [] => return (second, 0, [])
    | c :: decimals =>
      if isDecimalMark c then
        let (micro, rest) ← readDecimals? decimals
        return (second, micro, rest)
      else return (second, 0, rest)
  | ':' :: _ => none
  | _ => some (0, 0, t)

/-- The marks that may stand between day and time. -/
def separators : Text := ['T', 't', ' ', '_']

def ofTimestamp? (t : Text) : Option (DateTime × Option UtcOffset) :=
  match t.drop 10 with
  | separator :: h1 :: h2 :: ':' :: m1 :: m2 :: rest => do
    let d ← Date.ofText? (t.take 10)
    if !separators.contains separator then none
    let (second, micro, rest) ← readSeconds? rest
    let time ← ofFields? d (← asciiNumber? [h1, h2]) (← asciiNumber? [m1, m2]) second micro
    return (time, ← UtcOffset.ofTimestampEnd? rest)
  | _ => none

def epochDay : Int := 719163

/-- Numbers farther from zero count milliseconds. -/
def secondsBound : Nat := 20000000000

def unitMicros (far : Bool) : Nat :=
  if far then 1000 else 1000000

/-- The universal time so many microseconds after the beginning of the year 1970. -/
def ofUnixMicros? (total : Int) : Option DateTime := do
  let d ← Date.ofDayNumber? (epochDay + total / dayMicros)
  ofMicros? d (total % dayMicros).toNat

/-- The universal time so many seconds or milliseconds after the beginning of the year 1970. -/
def ofUnix? (n : Int) : Option DateTime :=
  ofUnixMicros? (n * unitMicros (decide (secondsBound < n.natAbs)))

/-- The same for a floating-point number. What exceeds the integer below it is taken to the nearest
microsecond. -/
def ofUnixFloat? : Binary64 → Option DateTime
  | .finite negative m e =>
    let num : Nat := m * 2 ^ e.toNat
    let den : Nat := 2 ^ (-e).toNat
    let n : Int := if negative then -num else num
    let unit := unitMicros (decide (secondsBound * den < num))
    let excess := Binary64.ofRatio false (n % den).toNat den
    ofUnixMicros? (n / den * unit + (excess.times unit).roundHalfUp)
  | _ => none

def readSign (t : Text) : Bool × Text :=
  match t with
  | '-' :: cs => (true, cs)
  | '+' :: cs => (false, cs)
  | cs => (false, cs)

/-- The power of ten at the end of a number. -/
def readPower? (t : Text) : Option Int :=
  match t with
  | [] => some 0
  | c :: cs =>
    let (negative, ds) := readSign cs
    if ds.isEmpty ∨ (c ≠ 'e' ∧ c ≠ 'E') then none
    else (asciiNumber? ds).map fun n => if negative then -n else n

/-- A number of seconds or milliseconds in digits, perhaps with a sign; one with a point may also
have a power of ten. -/
def ofUnixText? (t : Text) : Option DateTime :=
  let (negative, ds) := readSign t
  let whole := ds.takeWhile Char.isDigit
  match ds.drop whole.length with
  | [] =>
    if whole.isEmpty then none
    else do
      let n : Int := ← asciiNumber? whole
      ofUnix? (if negative then -n else n)
  | '.' :: rest =>
    let decimals := rest.takeWhile Char.isDigit
    if whole.isEmpty && decimals.isEmpty then none
    else do
      let power ← readPower? (rest.drop decimals.length)
      let digits ← asciiNumber? (whole ++ decimals)
      ofUnixFloat? (.ofDecimal negative digits (power - decimals.length))
  | _ => none

end DateTime

end ArticleArchive
