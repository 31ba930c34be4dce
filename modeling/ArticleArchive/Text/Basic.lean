import ArticleArchive.Slice

namespace ArticleArchive

/-- A list of characters, which are Unicode scalar values. A lone surrogate, which the escapes of
JSON can spell, is none: no text has one, and nothing that is proved of texts speaks of them. -/
abbrev Text := List Char

/-- Ranges of code points in increasing order, both ends included. -/
abbrev CodeRanges := List (Nat × Nat)

namespace CodeRanges

def contains (rs : CodeRanges) (c : Char) : Bool :=
  rs.any fun r => r.1 ≤ c.toNat && c.toNat ≤ r.2

theorem contains_iff {rs : CodeRanges} {c : Char} :
    rs.contains c = true ↔ ∃ r ∈ rs, r.1 ≤ c.toNat ∧ c.toNat ≤ r.2 := by
  simp [contains]

end CodeRanges

namespace Text

/-- Unicode's property White_Space; such characters end a sentence or a piece of markup. -/
def isSpace (c : Char) : Bool :=
  let n := c.toNat
  (9 ≤ n && n ≤ 13) || n == 0x20 || n == 0x85 || n == 0xA0 || n == 0x1680 ||
    (0x2000 ≤ n && n ≤ 0x200A) || n == 0x2028 || n == 0x2029 || n == 0x202F || n == 0x205F ||
    n == 0x3000

/-- The spaces and the four information separators U+001C to U+001F, which separate words and are
trimmed from both ends. -/
def isBlank (c : Char) : Bool :=
  isSpace c || (0x1C ≤ c.toNat && c.toNat ≤ 0x1F)

theorem isBlank_of_isSpace {c : Char} (h : isSpace c = true) : isBlank c = true := by
  simp [isBlank, h]

def trimBy (p : Char → Bool) (t : Text) : Text :=
  ((t.dropWhile p).reverse.dropWhile p).reverse

def strip (t : Text) : Text :=
  trimBy isBlank t

def consWord (c : Char) : List Text → List Text
  | [] => [[c]]
  | w :: ws => (c :: w) :: ws

/-- The longest runs of characters that are not blank. -/
def words : Text → List Text
  | [] => []
  | c :: cs =>
    if isBlank c then words cs
    else if cs.head?.all isBlank then [c] :: words cs
    else consWord c (words cs)

def singleSpaced (t : Text) : Text :=
  [' '].intercalate (words t)

/-- Every run of spaces becomes one U+0020. -/
def collapseSpaces : Text → Text
  | [] => []
  | c :: cs =>
    if isSpace c then
      if cs.head?.any isSpace then collapseSpaces cs else ' ' :: collapseSpaces cs
    else c :: collapseSpaces cs

def find? (c : Char) (t : Text) (start stop : Int) : Option Nat :=
  ((slice t start stop).idxOf? c).map (clampIndex t.length start + ·)

def findLast? (c : Char) (t : Text) (start stop : Int) : Option Nat :=
  let window := slice t start stop
  (window.reverse.idxOf? c).map fun k => clampIndex t.length start + (window.length - 1 - k)

end Text

end ArticleArchive
