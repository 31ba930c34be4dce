-- A power is the built-in one, not that of the monoid which algebra libraries find in numbers. A
-- literal exponent is written with its type, since it is the monoid that is looked for otherwise.
attribute [instance (1100)] instPowNat

namespace ArticleArchive

/-- A finite number is `mantissa * 2 ^ exponent`. The functions below build it with a mantissa
under `2 ^ 53` and the least exponent from `-1074` on that its value admits. -/
inductive Binary64 where
  | nan
  | infinite (negative : Bool)
  | finite (negative : Bool) (mantissa : Nat) (exponent : Int)
  deriving DecidableEq, Repr

namespace Binary64

def zero (negative : Bool) : Binary64 :=
  .finite negative 0 (-1074)

/-- The quotient as numerator and denominator once it is divided by `2 ^ q`. -/
def scaled (num den : Nat) (q : Int) : Nat × Nat :=
  if 0 ≤ q then (num, den * 2 ^ q.toNat) else (num * 2 ^ (-q).toNat, den)

/-- The integer nearest to `num / den`; a half goes to the even neighbour. -/
def roundHalfEven (num den : Nat) : Nat :=
  let low := num / den
  let rest := 2 * (num % den)
  if rest < den then low
  else if den < rest then low + 1
  else low + low % 2

/-- The greatest `e` with `2 ^ e ≤ num / den`. -/
def floorLog2 (num den : Nat) : Int :=
  let e : Int := (num.log2 : Int) - (den.log2 : Int)
  let s := scaled num den e
  if s.2 ≤ s.1 then e else e - 1

/-- The number nearest to `num / den`, infinite from half a step above the greatest one on. -/
def ofRatio (negative : Bool) (num den : Nat) : Binary64 :=
  if num = 0 ∨ den = 0 then zero negative
  else
    let q : Int := max (floorLog2 num den - 52) (-1074)
    let s := scaled num den q
    let m := roundHalfEven s.1 s.2
    let carried := m == 2 ^ (53 : Nat)
    let exponent := if carried then q + 1 else q
    if 971 < exponent then .infinite negative
    else .finite negative (if carried then 2 ^ (52 : Nat) else m) exponent

/-- The number nearest to `digits * 10 ^ exponent`. Beyond four hundred places on either side of
the point the answer is settled by the magnitude alone. -/
def ofDecimal (negative : Bool) (digits : Nat) (exponent : Int) : Binary64 :=
  let magnitude : Int := ((Nat.toDigits 10 digits).length : Int) + exponent
  if digits = 0 ∨ magnitude < -400 then zero negative
  else if 400 < magnitude then .infinite negative
  else if 0 ≤ exponent then ofRatio negative (digits * 10 ^ exponent.toNat) 1
  else ofRatio negative digits (10 ^ (-exponent).toNat)

/-- The number nearest to `k` times a number. -/
def times (k : Nat) : Binary64 → Binary64
  | finite negative m e => ofRatio negative (k * m * 2 ^ e.toNat) (2 ^ (-e).toNat)
  | x => x

/-- The integer nearest to a number that is not negative; a half goes up. -/
def roundHalfUp : Binary64 → Nat
  | finite _ m e =>
    let den := 2 ^ (-e).toNat
    (2 * m * 2 ^ e.toNat + den) / (2 * den)
  | _ => 0

def isFinite : Binary64 → Bool
  | finite _ _ _ => true
  | _ => false

def isZero : Binary64 → Bool
  | finite _ m _ => m == 0
  | _ => false

/-- The integer that the number is, if it is one. -/
def integer? : Binary64 → Option Int
  | finite negative m e =>
    let signed (n : Nat) : Int := if negative then -(n : Int) else n
    if 0 ≤ e then some (signed (m * 2 ^ e.toNat))
    else
      let d := 2 ^ (-e).toNat
      if m % d = 0 then some (signed (m / d)) else none
  | _ => none

/-- The least integer that is not below a number. -/
def ceil? : Binary64 → Option Int
  | finite negative m e =>
    let num := m * 2 ^ e.toNat
    let den := 2 ^ (-e).toNat
    some (if negative then -((num / den : Nat) : Int) else ((num + (den - 1)) / den : Nat))
  | _ => none

/-- Whether two numbers have one value: the zeros are equal, and so is not-a-number to itself. -/
def sameValue (a b : Binary64) : Bool :=
  a == b || (a.isZero && b.isZero)

end Binary64

end ArticleArchive
