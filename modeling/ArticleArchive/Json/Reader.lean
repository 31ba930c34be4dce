import ArticleArchive.Json.Value
import ArticleArchive.Text.Numeral

namespace ArticleArchive.Json

inductive Unreadable where
  | malformed
  | longNumeral
  deriving DecidableEq, Repr

/-- What is left of a text after something was read from it. -/
abbrev Rest (t : Text) := { r : Text // r.length < t.length }

def isWhite (c : Char) : Bool :=
  c == ' ' || c == '\t' || c == '\n' || c == '\r'

def skipWhite (t : Text) : Text :=
  t.dropWhile isWhite

theorem length_skipWhite_le (t : Text) : (skipWhite t).length ≤ t.length :=
  (List.dropWhile_sublist isWhite).length_le

theorem length_lt_of_skipWhite {t r : Text} {c : Char} (h : skipWhite t = c :: r) :
    r.length < t.length := by
  have := length_skipWhite_le t
  simp only [h, List.length_cons] at this
  omega

def hexValue? (c : Char) : Option Nat :=
  if '0' ≤ c ∧ c ≤ '9' then some (c.toNat - 48)
  else if 'a' ≤ c ∧ c ≤ 'f' then some (c.toNat - 87)
  else if 'A' ≤ c ∧ c ≤ 'F' then some (c.toNat - 55)
  else none

def unit? (a b c d : Char) : Option Nat := do
  let w ← hexValue? a
  let x ← hexValue? b
  let y ← hexValue? c
  let z ← hexValue? d
  return ((w * 16 + x) * 16 + y) * 16 + z

def isHighSurrogate (u : Nat) : Bool :=
  0xD800 ≤ u && u < 0xDC00

def isLowSurrogate (u : Nat) : Bool :=
  0xDC00 ≤ u && u < 0xE000

/-- The character of a code unit. A lone surrogate is no character; U+FFFD is put in its place, but
texts with a lone surrogate are left out of account. -/
def unitChar (u : Nat) : Char :=
  if isHighSurrogate u || isLowSurrogate u then '\uFFFD' else Char.ofNat u

def pairChar (high low : Nat) : Char :=
  Char.ofNat (0x10000 + (high - 0xD800) * 0x400 + (low - 0xDC00))

def simpleEscape? (c : Char) : Option Char :=
  if c = '"' ∨ c = '\\' ∨ c = '/' then some c
  else if c = 'b' then some '\x08'
  else if c = 'f' then some '\x0c'
  else if c = 'n' then some '\n'
  else if c = 'r' then some '\r'
  else if c = 't' then some '\t'
  else none

def consRead (c : Char) (r : Option (Text × Text)) : Option (Text × Text) :=
  r.map fun p => (c :: p.1, p.2)

/-- The characters up to the closing quote, and what follows it. -/
def readText : Text → Option (Text × Text)
  | [] => none
  | '"' :: cs => some ([], cs)
  | '\\' :: 'u' :: a :: b :: c :: d :: cs =>
    match unit? a b c d with
    | none => none
    | some u =>
      match cs with
      | '\\' :: 'u' :: e :: f :: g :: h :: ds =>
        match unit? e f g h with
        | none => none
        | some v =>
          if isHighSurrogate u && isLowSurrogate v then consRead (pairChar u v) (readText ds)
          else consRead (unitChar u) (readText ('\\' :: 'u' :: e :: f :: g :: h :: ds))
      | cs => consRead (unitChar u) (readText cs)
  | '\\' :: c :: cs =>
    match simpleEscape? c with
    | none => none
    | some e => consRead e (readText cs)
  | c :: cs => if c = '\\' ∨ c.toNat < 0x20 then none else consRead c (readText cs)

theorem length_lt_of_readText {t s r : Text} (h : readText t = some (s, r)) :
    r.length < t.length := by
  have cons {c : Char} {o : Option (Text × Text)} {s r : Text}
      (h : consRead c o = some (s, r)) : ∃ s', o = some (s', r) := by
    cases o with
    | none => simp [consRead] at h
    | some p => obtain ⟨s', r'⟩ := p; simp [consRead] at h; exact ⟨s', by simp [h.2]⟩
  fun_induction readText t generalizing s with
  | case1 => simp at h
  | case2 cs => simp at h; simp [h.2]
  | case3 => simp at h
  | case4 => simp at h
  | case5 a b c d u hu e f g k ds v hv hs ih =>
    obtain ⟨s', hr⟩ := cons h
    have := ih hr
    simp only [List.length_cons]; omega
  | case6 a b c d u hu e f g k ds v hv hs ih =>
    obtain ⟨s', hr⟩ := cons h
    have := ih hr
    simp only [List.length_cons] at this ⊢; omega
  | case7 a b c d cs u hu hc ih =>
    obtain ⟨s', hr⟩ := cons h
    have := ih hr
    simp only [List.length_cons]; omega
  | case8 => simp at h
  | case9 c cs hc e he ih =>
    obtain ⟨s', hr⟩ := cons h
    have := ih hr
    simp only [List.length_cons]; omega
  | case10 => simp at h
  | case11 c cs _ _ _ hc ih =>
    obtain ⟨s', hr⟩ := cons h
    have := ih hr
    simp only [List.length_cons]; omega

/-- The digits before the point: a zero, or digits that do not start with one. -/
def readWhole? : Text → Option (Text × Text)
  | '0' :: cs => some (['0'], cs)
  | c :: cs =>
    if c.isDigit then
      some ((c :: cs).takeWhile Char.isDigit, (c :: cs).dropWhile Char.isDigit)
    else none
  | [] => none

/-- The digits after the point, none when no digit follows it. -/
def readFraction (t : Text) : Text × Text :=
  match t with
  | '.' :: c :: cs =>
    if c.isDigit then
      ((c :: cs).takeWhile Char.isDigit, (c :: cs).dropWhile Char.isDigit)
    else ([], t)
  | _ => ([], t)

def readPower (t : Text) (ds : Text) : Option Int × Text :=
  let signed (negative : Bool) (ds : Text) : Option Int × Text :=
    match ds.takeWhile Char.isDigit with
    | [] => (none, t)
    | power =>
      (some (if negative then -(Text.asciiValue power : Int) else Text.asciiValue power),
        ds.dropWhile Char.isDigit)
  match ds with
  | '-' :: ds => signed true ds
  | '+' :: ds => signed false ds
  | ds => signed false ds

/-- The power of ten after `e` or `E`, if digits follow it. -/
def readExponent (t : Text) : Option Int × Text :=
  match t with
  | 'e' :: cs => readPower t cs
  | 'E' :: cs => readPower t cs
  | _ => (none, t)

def readMagnitude (negative : Bool) (t : Text) : Except Unreadable (Json × Text) :=
  match readWhole? t with
  | none => .error .malformed
  | some (whole, r) =>
    let (fraction, r) := readFraction r
    let (exponent, r) := readExponent r
    if fraction.isEmpty && exponent.isNone then
      if Text.maxDigits < whole.length then .error .longNumeral
      else
        let n : Int := Text.asciiValue whole
        .ok (.int (if negative then -n else n), r)
    else
      let power := exponent.getD 0 - fraction.length
      .ok (.float (.ofDecimal negative (Text.asciiValue (whole ++ fraction)) power), r)

def literals : List (Text × Json) := [
  ("null".toList, .null), ("true".toList, .bool true), ("false".toList, .bool false),
  ("NaN".toList, .float .nan), ("Infinity".toList, .float (.infinite false)),
  ("-Infinity".toList, .float (.infinite true))]

/-- A value that is no text, list or object. -/
def readPlain (t : Text) : Except Unreadable (Json × Text) :=
  match literals.find? fun l => l.1.isPrefixOf t with
  | some (word, v) => .ok (v, t.drop word.length)
  | none =>
    match t with
    | '-' :: cs => readMagnitude true cs
    | cs => readMagnitude false cs

def Rest.of? (t r : Text) : Option (Rest t) :=
  if h : r.length < t.length then some ⟨r, h⟩ else none

mutual

def readValue (t : Text) : Except Unreadable (Json × Rest t) :=
  match t with
  | '"' :: cs =>
    match h : readText cs with
    | none => .error .malformed
    | some (s, r) => .ok (.str s, ⟨r, by
        have := length_lt_of_readText h
        simp only [List.length_cons]; omega⟩)
  | '[' :: cs =>
    match h : skipWhite cs with
    | ']' :: r => .ok (.arr [], ⟨r, by
        have := length_lt_of_skipWhite h
        simp only [List.length_cons]; omega⟩)
    | _ =>
      match readItems (skipWhite cs) with
      | .error e => .error e
      | .ok (vs, ⟨r, hr⟩) => .ok (.arr vs, ⟨r, by
          have := length_skipWhite_le cs
          simp only [List.length_cons]; omega⟩)
  | '\x7b' :: cs =>
    match h : skipWhite cs with
    | '\x7d' :: r => .ok (.obj [], ⟨r, by
        have := length_lt_of_skipWhite h
        simp only [List.length_cons]; omega⟩)
    | _ =>
      match readFields (skipWhite cs) [] with
      | .error e => .error e
      | .ok (fs, ⟨r, hr⟩) => .ok (.obj fs, ⟨r, by
          have := length_skipWhite_le cs
          simp only [List.length_cons]; omega⟩)
  | t =>
    match readPlain t with
    | .error e => .error e
    | .ok (v, r) =>
      match Rest.of? t r with
      | none => .error .malformed
      | some r => .ok (v, r)
termination_by (t.length, 0)
decreasing_by
  all_goals
    have := length_skipWhite_le cs
    apply Prod.Lex.left
    simp only [List.length_cons]
    omega

def readItems (t : Text) : Except Unreadable (List Json × Rest t) :=
  match readValue t with
  | .error e => .error e
  | .ok (v, ⟨r, hr⟩) =>
    match h : skipWhite r with
    | ']' :: s => .ok ([v], ⟨s, by
        have := length_lt_of_skipWhite h
        omega⟩)
    | ',' :: s =>
      match readItems (skipWhite s) with
      | .error e => .error e
      | .ok (vs, ⟨q, hq⟩) => .ok (v :: vs, ⟨q, by
          have := length_lt_of_skipWhite h
          have := length_skipWhite_le s
          omega⟩)
    | _ => .error .malformed
termination_by (t.length, 1)
decreasing_by
  · exact Prod.Lex.right _ (by decide)
  · have := length_lt_of_skipWhite h
    have := length_skipWhite_le s
    apply Prod.Lex.left
    omega

def readFields (t : Text) (before : List (Text × Json)) :
    Except Unreadable (List (Text × Json) × Rest t) :=
  match t with
  | '"' :: cs =>
    match hn : readText cs with
    | none => .error .malformed
    | some (name, r) =>
      match hc : skipWhite r with
      | ':' :: s =>
        match readValue (skipWhite s) with
        | .error e => .error e
        | .ok (v, ⟨q, hq⟩) =>
          match h : skipWhite q with
          | '\x7d' :: u => .ok (setField name v before, ⟨u, by
              have := length_lt_of_readText hn
              have := length_lt_of_skipWhite hc
              have := length_skipWhite_le s
              have := length_lt_of_skipWhite h
              simp only [List.length_cons]; omega⟩)
          | ',' :: u =>
            match readFields (skipWhite u) (setField name v before) with
            | .error e => .error e
            | .ok (fs, ⟨w, hw⟩) => .ok (fs, ⟨w, by
                have := length_lt_of_readText hn
                have := length_lt_of_skipWhite hc
                have := length_skipWhite_le s
                have := length_lt_of_skipWhite h
                have := length_skipWhite_le u
                simp only [List.length_cons]; omega⟩)
          | _ => .error .malformed
      | _ => .error .malformed
  | _ => .error .malformed
termination_by (t.length, 1)
decreasing_by
  · have := length_lt_of_readText hn
    have := length_lt_of_skipWhite hc
    have := length_skipWhite_le s
    apply Prod.Lex.left
    simp only [List.length_cons]; omega
  · have := length_lt_of_readText hn
    have := length_lt_of_skipWhite hc
    have := length_skipWhite_le s
    have := length_lt_of_skipWhite h
    have := length_skipWhite_le u
    apply Prod.Lex.left
    simp only [List.length_cons]; omega

end

/-- The value that a whole text spells. Besides the standard grammar, `NaN`, `Infinity` and
`-Infinity` are numbers, and a repeated name keeps its place and takes the last value. -/
def parse (t : Text) : Except Unreadable Json :=
  match readValue (skipWhite t) with
  | .error e => .error e
  | .ok (v, ⟨r, _⟩) => if skipWhite r = [] then .ok v else .error .malformed

end ArticleArchive.Json
