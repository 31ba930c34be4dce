import ArticleArchive.Text.Basic

namespace ArticleArchive.Text

/-- The row for one more character of the first text: `row` holds the common lengths so far with
each beginning of the second text, `left` and `diagonal` those before the current column. -/
def commonRow (c : Char) : (t : Text) → (row : List Nat) → (left diagonal : Nat) → List Nat
  | d :: ds, above :: row, left, diagonal =>
    let here := if c = d then diagonal + 1 else max left above
    here :: commonRow c ds row here above
  | _, _, _, _ => []

/-- The length of the longest common subsequence. -/
def commonLength (s t : Text) : Nat :=
  (s.foldl (fun row c => commonRow c t row 0 0) (t.map fun _ => 0)).getLastD 0

/-- A share `matched / total`; two empty texts are wholly alike. -/
structure Similarity where
  matched : Nat
  total : Nat

namespace Similarity

def ofTexts (s t : Text) : Similarity :=
  if s.isEmpty && t.isEmpty then ⟨1, 1⟩ else ⟨2 * commonLength s t, s.length + t.length⟩

def lt (a b : Similarity) : Bool :=
  a.matched * b.total < b.matched * a.total

/-- Whether the share is at least `percent` in a hundred. -/
def atLeast (percent : Nat) (a : Similarity) : Bool :=
  percent * a.total ≤ 100 * a.matched

end Similarity

/-- The first of the choices most similar to the name, if it is similar enough. -/
def closest? (percent : Nat) (name : Text) (choices : List Text) : Option Text :=
  let better (best : Option (Text × Similarity)) (choice : Text) :=
    let s := Similarity.ofTexts name choice
    match best with
    | none => if s.atLeast percent then some (choice, s) else none
    | some (_, b) => if b.lt s then some (choice, s) else best
  (choices.foldl better none).map (·.1)

end ArticleArchive.Text
