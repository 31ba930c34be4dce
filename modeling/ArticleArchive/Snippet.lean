import ArticleArchive.Text.Basic

namespace ArticleArchive

def ellipsis : Text := "...".toList

def snippetLength : Int := 120

def endsSentence (c : Char) : Bool :=
  c == '.' || c == '!' || c == '?'

/-- The indices after the white space that follows the end of a sentence, counted from `start`. -/
def sentenceStarts (start : Nat) : Text → List Nat
  | c :: d :: cs =>
    let later := sentenceStarts (start + 1) (d :: cs)
    if endsSentence c && Text.isSpace d then
      (start + 1 + ((d :: cs).takeWhile Text.isSpace).length) :: later
    else later
  | _ => []

/-- Where an excerpt of `maxChars` characters starts so that `position` falls into it: at the
beginning while the first half of such an excerpt reaches that far, else after the last end of a
sentence in the half before the position, else after the first U+0020 there. -/
def windowStart (t : Text) (position maxChars : Int) : Int :=
  let half := maxChars / 2
  if position < half then 0
  else
    let lookback := max 0 (position - half)
    let window := slice t lookback position
    match (sentenceStarts (clampIndex t.length lookback) window).getLast? with
    | some i => i
    | none =>
      match Text.find? ' ' t lookback position with
      | some i => i + 1
      | none => lookback

/-- The index at which an excerpt that starts at `start` ends: before the last U+0020 in it when it
would end before the text does. -/
def windowStop (t : Text) (start maxChars : Int) : Int :=
  let stop := start + maxChars
  if stop < t.length then
    match Text.findLast? ' ' t start stop with
    | some i => if start < i then i else stop
    | none => stop
  else stop

/-- An excerpt of at most `maxChars` characters that holds the character at `anchor`. -/
def snippet (t : Text) (anchor : Option Int) (maxChars : Int) : Text :=
  if t.length ≤ maxChars then t
  else
    let start := match anchor with
      | some a => windowStart t (min a t.length) maxChars
      | none => 0
    let stop := windowStop t start maxChars
    let excerpt := Text.strip (slice t start stop)
    (if 0 < start then ellipsis else []) ++ excerpt ++ (if stop < t.length then ellipsis else [])

end ArticleArchive
