import ArticleArchive.Json.Reader
import ArticleArchive.Text.Html

namespace ArticleArchive.Text

/-- What the names of characters stand for. A name is what follows the ampersand, in most cases with
a semicolon at its end. -/
structure ReferenceNames where
  find? : Text → Option Text
  amp : find? "amp;".toList = some ['&']
  lt : find? "lt;".toList = some ['<']
  gt : find? "gt;".toList = some ['>']
  quot : find? "quot;".toList = some ['"']

def controlReplacements : List Char := [
  '\u20AC', '\u0081', '\u201A', '\u0192', '\u201E', '\u2026', '\u2020', '\u2021',
  '\u02C6', '\u2030', '\u0160', '\u2039', '\u0152', '\u008D', '\u017D', '\u008F',
  '\u0090', '\u2018', '\u2019', '\u201C', '\u201D', '\u2022', '\u2013', '\u2014',
  '\u02DC', '\u2122', '\u0161', '\u203A', '\u0153', '\u009D', '\u017E', '\u0178']

/-- Control characters and noncharacters: a reference to one of them stands for nothing. -/
def isLeftOut (n : Nat) : Bool :=
  (1 ≤ n && n ≤ 8) || n == 0xB || (0xE ≤ n && n ≤ 0x1F) || n == 0x7F ||
    (0xFDD0 ≤ n && n ≤ 0xFDEF) || 0xFFFE ≤ n % 0x10000

/-- What a reference by number stands for; U+FFFD takes the place of zero, of surrogates and of what
is no character at all. -/
def numbered (n : Nat) : Text :=
  if n = 0 ∨ (0xD800 ≤ n ∧ n ≤ 0xDFFF) ∨ 0x10FFFF < n then ['\uFFFD']
  else if 0x80 ≤ n then
    match controlReplacements[n - 0x80]? with
    | some c => [c]
    | none => if isLeftOut n then [] else [Char.ofNat n]
  else if isLeftOut n then [] else [Char.ofNat n]

def decimalNumber? (t : Text) : Option (Nat × Nat) :=
  let ds := t.takeWhile Char.isDigit
  if ds.isEmpty then none else some (asciiValue ds, ds.length)

def hexNumber? (t : Text) : Option (Nat × Nat) :=
  match t with
  | [] => none
  | x :: t =>
    let ds := t.takeWhile fun c => (Json.hexValue? c).isSome
    if ds.isEmpty || !(x == 'x' || x == 'X') then none
    else some ((ds.filterMap Json.hexValue?).foldl (fun n d => 16 * n + d) 0, ds.length + 1)

def semicolon (t : Text) : Text :=
  if t.head? = some ';' then [';'] else []

def referenceEnds : List Char :=
  ['\t', '\n', '\x0c', ' ', '<', '&', '#', ';']

def isReferenceChar (c : Char) : Bool :=
  !referenceEnds.contains c

def referenceLength : Nat := 32

namespace ReferenceNames

/-- What is written after an ampersand, by its longest beginning of two characters or more that is a
name. -/
def named (names : ReferenceNames) (t : Text) : Text :=
  match names.find? t with
  | some u => u
  | none =>
    let shorter := (List.range' 2 (t.length - 2)).reverse
    (shorter.findSome? fun n => (names.find? (t.take n)).map (· ++ t.drop n)).getD ('&' :: t)

/-- The reference at the beginning of a text that follows an ampersand: what it stands for, and how
many characters it takes up. -/
def reference? (names : ReferenceNames) (t : Text) : Option (Text × Nat) :=
  match t with
  | '#' :: t =>
    ((decimalNumber? t).orElse fun _ => hexNumber? t).map fun (n, length) =>
      (numbered n, 1 + length + (semicolon (t.drop length)).length)
  | _ =>
    let name := (t.takeWhile isReferenceChar).take referenceLength
    if name.isEmpty then none
    else
      let name := name ++ semicolon (t.drop name.length)
      some (names.named name, name.length)

/-- The text with its references resolved, after `skip` characters of it. -/
def unescapeFrom (names : ReferenceNames) : Nat → Text → Text
  | _, [] => []
  | skip + 1, _ :: t => unescapeFrom names skip t
  | 0, c :: t =>
    if c = '&' then
      match names.reference? t with
      | some (u, length) => u ++ unescapeFrom names length t
      | none => '&' :: unescapeFrom names 0 t
    else c :: unescapeFrom names 0 t

/-- The text with each reference to a character in it resolved. -/
def unescape (names : ReferenceNames) (t : Text) : Text :=
  names.unescapeFrom 0 t

variable (names : ReferenceNames)

theorem unescapeFrom_append (s t : Text) :
    names.unescapeFrom s.length (s ++ t) = names.unescape t := by
  induction s with
  | nil => rfl
  | cons c s ih => exact ih

theorem unescape_cons {c : Char} (hc : c ≠ '&') (t : Text) :
    names.unescape (c :: t) = c :: names.unescape t := by
  rw [unescape, unescapeFrom, if_neg hc]
  rfl

theorem unescape_reference {s t u : Text} (h : names.reference? (s ++ t) = some (u, s.length)) :
    names.unescape ('&' :: (s ++ t)) = u ++ names.unescape t := by
  rw [unescape, unescapeFrom, if_pos rfl, h]
  exact congrArg (u ++ ·) (names.unescapeFrom_append s t)

theorem reference?_name (name : Text) {u : Text} (hchars : name.all isReferenceChar = true)
    (hne : name ≠ []) (hlength : name.length ≤ referenceLength)
    (hu : names.find? (name ++ [';']) = some u) (t : Text) :
    names.reference? (name ++ [';'] ++ t) = some (u, (name ++ [';']).length) := by
  have hchars := List.all_eq_true.mp hchars
  have hread : (name ++ [';'] ++ t).takeWhile isReferenceChar = name := by
    rw [List.append_assoc, List.takeWhile_append_of_pos hchars]
    simp [isReferenceChar, referenceEnds]
  have hdrop : (name ++ [';'] ++ t).drop name.length = ';' :: t := by simp
  unfold reference?
  split
  · rename_i t' ht'
    cases name with
    | nil => exact absurd rfl hne
    | cons c name =>
      obtain ⟨rfl, -⟩ := List.cons.inj ht'
      have := hchars '#' List.mem_cons_self
      simp [isReferenceChar, referenceEnds] at this
  · dsimp only
    rw [hread, List.take_of_length_le hlength, hdrop]
    simp [hne, semicolon, named, hu]

theorem reference?_apostrophe (t : Text) :
    names.reference? ("#x27;".toList ++ t) = some ([apostrophe], 5) :=
  rfl

theorem unescape_htmlChar (c : Char) (t : Text) :
    names.unescape (htmlChar c ++ t) = c :: names.unescape t := by
  have hname (name : Text) (hchars : name.all isReferenceChar = true) (hne : name ≠ [])
      (hlength : name.length ≤ referenceLength)
      (hc : names.find? (name ++ [';']) = some [c]) :
      names.unescape ('&' :: (name ++ [';']) ++ t) = c :: names.unescape t :=
    names.unescape_reference (names.reference?_name name hchars hne hlength hc t)
  by_cases hc : c ∈ htmlReserved
  · simp only [htmlReserved, List.mem_cons, List.not_mem_nil, or_false] at hc
    rcases hc with rfl | rfl | rfl | rfl | rfl
    · exact hname "amp".toList rfl (by simp) (by decide) names.amp
    · exact hname "lt".toList rfl (by simp) (by decide) names.lt
    · exact hname "gt".toList rfl (by simp) (by decide) names.gt
    · exact hname "quot".toList rfl (by simp) (by decide) names.quot
    · exact names.unescape_reference (names.reference?_apostrophe t)
  · have hamp : c ≠ '&' := by
      rintro rfl
      exact hc List.mem_cons_self
    rw [htmlChar_of_notMem hc]
    exact names.unescape_cons hamp t

theorem unescape_htmlEscape (t : Text) : names.unescape (htmlEscape t) = t := by
  induction t with
  | nil => rfl
  | cons c t ih =>
    rw [htmlEscape, List.flatMap_cons, names.unescape_htmlChar]
    exact congrArg (c :: ·) ih

def predefined : ReferenceNames where
  find? t := [("amp;".toList, ['&']), ("lt;".toList, ['<']), ("gt;".toList, ['>']),
    ("quot;".toList, ['"'])].lookup t
  amp := rfl
  lt := rfl
  gt := rfl
  quot := rfl

example : predefined.unescape "&lt;&#60;&amp;lt; &x;".toList = "<<&lt; &x;".toList := by
  decide

end ReferenceNames

end ArticleArchive.Text
