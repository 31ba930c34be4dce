import ArticleArchive.Text.Basic

namespace ArticleArchive.Text

/-- Whether `needle` stands somewhere in a text; the empty text stands everywhere. -/
def occursIn (needle : Text) : Text → Bool
  | [] => needle.isEmpty
  | c :: cs => needle.isPrefixOf (c :: cs) || occursIn needle cs

/-- The indices at which `needle` stands, overlaps included, counted from `start`. -/
def occurrencesFrom (needle : Text) (start : Nat) : Text → List Nat
  | [] => if needle.isEmpty then [start] else []
  | c :: cs =>
    let later := occurrencesFrom needle (start + 1) cs
    if needle.isPrefixOf (c :: cs) then start :: later else later

def occurrences (needle t : Text) : List Nat :=
  occurrencesFrom needle 0 t

/-- Counts from the left, after `skip` characters, and passes over each occurrence counted. -/
def countFrom (needle : Text) : Nat → Text → Nat
  | _, [] => 0
  | skip + 1, _ :: cs => countFrom needle skip cs
  | 0, c :: cs =>
    if needle.isPrefixOf (c :: cs) then countFrom needle (needle.length - 1) cs + 1
    else countFrom needle 0 cs

/-- The number of occurrences that do not overlap; the empty text stands between any two
characters and at both ends. -/
def countOccurrences (needle t : Text) : Nat :=
  if needle.isEmpty then t.length + 1 else countFrom needle 0 t

theorem occursIn_iff {needle t : Text} : occursIn needle t = true ↔ needle <:+: t := by
  induction t with
  | nil => simp [occursIn]
  | cons c cs ih => simp [occursIn, ih, List.infix_cons_iff]

end ArticleArchive.Text
