import ArticleArchive.Number.Binary64
import ArticleArchive.Text.Basic

namespace ArticleArchive

/-- The value `digits * 10 ^ exponent`. -/
structure Decimal where
  digits : Nat
  exponent : Int
  deriving DecidableEq, Repr

namespace Decimal

/-- The decimal without zeros at the end of its digits. -/
def trimmed (d : Decimal) : Decimal :=
  let zeros := ((Nat.toDigits 10 d.digits).reverse.takeWhile (· = '0')).length
  ⟨d.digits / 10 ^ zeros, d.exponent + zeros⟩

end Decimal

/-- The reals that round to a positive number, scaled so that the ends are natural numbers over
`den`. The ends themselves belong to it when the mantissa is even. -/
structure RoundingInterval where
  low : Nat
  value : Nat
  high : Nat
  den : Nat
  closed : Bool

namespace RoundingInterval

/-- Below a power of two the numbers lie twice as close as above it. -/
def ofMantissa (m : Nat) (q : Int) : RoundingInterval :=
  let below := if m = 2 ^ (52 : Nat) ∧ -1074 < q then 1 else 2
  let up := 2 ^ q.toNat
  ⟨(4 * m - below) * up, 4 * m * up, (4 * m + 2) * up, 4 * 2 ^ (-q).toNat, m % 2 == 0⟩

def contains (i : RoundingInterval) (d : Decimal) : Bool :=
  let up := 10 ^ (-d.exponent).toNat
  let x := d.digits * 10 ^ d.exponent.toNat * i.den
  if i.closed then i.low * up ≤ x && x ≤ i.high * up else i.low * up < x && x < i.high * up

/-- The number of digits before the point, counted as negative when zeros follow the point. -/
def magnitude (i : RoundingInterval) : Int :=
  if i.den ≤ i.value then (Nat.toDigits 10 (i.value / i.den)).length
  else 1 - ((Nat.toDigits 10 (i.den / i.value)).length : Int)

/-- The greatest decimal with `n` digits that is at most the value. -/
def below (i : RoundingInterval) (n : Nat) : Decimal :=
  let g := i.magnitude - n
  ⟨i.value * 10 ^ (-g).toNat / (i.den * 10 ^ g.toNat), g⟩

/-- Of the two decimals with `n` digits around the value, the nearer one in the interval, of two
that are equally near the one whose last digit is even. -/
def candidate? (i : RoundingInterval) (n : Nat) : Option Decimal :=
  let a := i.below n
  let b : Decimal := ⟨a.digits + 1, a.exponent⟩
  let value := 2 * i.value * 10 ^ (-a.exponent).toNat
  let middle := (2 * a.digits + 1) * 10 ^ a.exponent.toNat * i.den
  match i.contains a, i.contains b with
  | true, true =>
    if value < middle ∨ (value = middle ∧ a.digits % 2 = 0) then some a else some b
  | true, false => some a
  | false, true => some b
  | false, false => none

/-- Seventeen digits always suffice. -/
def shortest (i : RoundingInterval) : Decimal :=
  (((List.range 17).findSome? fun n => i.candidate? (n + 1)).getD (i.below 17)).trimmed

end RoundingInterval

namespace Binary64

def signText (negative : Bool) : Text :=
  if negative then ['-'] else []

/-- Digits with the point after the first `point` of them, and zeros where digits are missing. -/
def positional (digits : Text) (point : Int) : Text :=
  if point ≤ 0 then '0' :: '.' :: (List.replicate (-point).toNat '0' ++ digits)
  else
    let n := point.toNat
    let whole := digits.take n ++ List.replicate (n - digits.length) '0'
    let fraction := digits.drop n
    whole ++ '.' :: (if fraction.isEmpty then ['0'] else fraction)

/-- Digits with the point after the first, and a power of ten with a sign and two digits or
more. -/
def scientific (digits : Text) (power : Int) : Text :=
  let mantissa := match digits with
    | [] => []
    | [d] => [d]
    | d :: ds => d :: '.' :: ds
  let size := Nat.toDigits 10 power.natAbs
  let padded := if size.length < 2 then '0' :: size else size
  mantissa ++ 'e' :: (if power < 0 then '-' else '+') :: padded

/-- Sixteen places before the point and four zeros after it are written out; larger and smaller
numbers have a power of ten. -/
def written : Binary64 → Text
  | nan => "nan".toList
  | infinite negative => signText negative ++ "inf".toList
  | finite negative m e =>
    if m = 0 then signText negative ++ "0.0".toList
    else
      let d := (RoundingInterval.ofMantissa m e).shortest
      let digits := Nat.toDigits 10 d.digits
      let point := (digits.length : Int) + d.exponent
      signText negative ++
        if -4 < point ∧ point ≤ 16 then positional digits point else scientific digits (point - 1)

end Binary64

end ArticleArchive
