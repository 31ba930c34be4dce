import ArticleArchive.Text.WordChar

namespace ArticleArchive

/-- Finds a piece of markup at the beginning of a text, given the character before it: its length,
and what is kept of it. -/
abbrev Markup := Option Char → Text → Option (Nat × Text)

namespace Markup

/-- Removes the markup from left to right, after `skip` characters that were removed before. -/
def removeFrom (m : Markup) (before : Option Char) : Nat → Text → Text
  | _, [] => []
  | skip + 1, c :: cs => removeFrom m (some c) skip cs
  | 0, c :: cs =>
    match m before (c :: cs) with
    | some (n, kept) => kept ++ removeFrom m (some c) (n - 1) cs
    | none => c :: removeFrom m (some c) 0 cs

def remove (m : Markup) (t : Text) : Text :=
  removeFrom m none 0 t

/-- The length of a target in parentheses that starts a text; the target is not empty. -/
def targetLength? (t : Text) : Option Nat :=
  match t with
  | '(' :: cs =>
    let target := cs.takeWhile (· ≠ ')')
    if target.isEmpty then none
    else match cs.dropWhile (· ≠ ')') with
      | [] => none
      | _ => some (target.length + 2)
  | _ => none

/-- The label of a reference whose opening bracket has been read, and the length of the rest of
the reference. -/
def readReference? (t : Text) : Option (Text × Nat) :=
  let label := t.takeWhile (· ≠ ']')
  match t.dropWhile (· ≠ ']') with
  | [] => none
  | _ :: cs => (targetLength? cs).map fun n => (label, label.length + 1 + n)

/-- `![label](target)`, removed as a whole. -/
def image : Markup
  | _, '!' :: '[' :: cs => (readReference? cs).map fun r => (r.2 + 2, [])
  | _, _ => none

/-- `[label](target)` with a label that is not empty. -/
def link : Markup
  | _, '[' :: cs =>
    match readReference? cs with
    | some (label, n) => if label.isEmpty then none else some (n + 1, label)
    | none => none
  | _, _ => none

/-- One to six hashes at the beginning of a line and the white space after them. -/
def header : Markup
  | before, t =>
    let hashes := (t.takeWhile (· = '#')).length
    let spaces := ((t.drop hashes).takeWhile Text.isSpace).length
    if (before = none ∨ before = some '\n') ∧ 1 ≤ hashes ∧ hashes ≤ 6 ∧ 1 ≤ spaces then
      some (hashes + spaces, [])
    else none

/-- Whether stars hug a character: it is neither white space nor a star. -/
def isHugged (c : Char) : Bool :=
  !Text.isSpace c && c != '*'

/-- Whether emphasis can end before or start after a character. -/
def isBoundary : Option Char → Bool
  | some c => !Text.isWordChar c && c != '*'
  | none => true

def startsClosing (stars : Nat) (t : Text) : Bool :=
  (List.replicate stars '*').isPrefixOf t && isBoundary (t.drop stars).head?

/-- The text up to the nearest closing stars on the same line, after its character `last`. -/
def readEmphasized? (stars : Nat) (last : Char) : Text → Option Text
  | [] => none
  | c :: cs =>
    if isHugged last && startsClosing stars (c :: cs) then some []
    else if c = '\n' then none
    else (readEmphasized? stars c cs).map (c :: ·)

/-- Text between `stars` stars on both sides. It counts only where the stars hug it, so that stars
in formulas and declarations stay. -/
def emphasis (stars : Nat) : Markup
  | before, t =>
    if isBoundary before && (List.replicate stars '*').isPrefixOf t then
      match t.drop stars with
      | c :: cs =>
        if isHugged c then
          (readEmphasized? stars c cs).map fun inner => (inner.length + 1 + 2 * stars, c :: inner)
        else none
      | [] => none
    else none

def bold : Markup := emphasis 2

def italic : Markup := emphasis 1

def backtick : Char := '\x60'

/-- Text between backticks on one line. -/
def code : Markup
  | _, c :: cs =>
    let inner := cs.takeWhile fun d => d ≠ backtick ∧ d ≠ '\n'
    if c = backtick ∧ (cs.drop inner.length).head? = some backtick then
      some (inner.length + 2, inner)
    else none
  | _, [] => none

end Markup

/-- The readable part of a text on one line: without markup, every run of white space a single
space, and nothing blank at the ends. Images go before links, since one contains the other. -/
def stripMarkup (t : Text) : Text :=
  let kinds := [Markup.image, Markup.link, Markup.header, Markup.bold, Markup.italic, Markup.code]
  Text.strip (Text.collapseSpaces (kinds.foldl (fun t m => m.remove t) t))

end ArticleArchive
