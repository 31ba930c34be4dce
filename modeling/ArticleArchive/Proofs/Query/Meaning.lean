import Mathlib.Data.List.Infix
import ArticleArchive.Query.Matching

namespace ArticleArchive

/-- What a mark says of two integers; no other mark than the five says anything. -/
def Comparison.Relates : Comparison → Int → Int → Prop
  | gt, x, y => y < x
  | ge, x, y => y ≤ x
  | lt, x, y => x < y
  | le, x, y => x ≤ y
  | eq, x, y => x = y
  | other _, _, _ => False

instance (op : Comparison) (x y : Int) : Decidable (op.Relates x y) :=
  match op with
  | .gt => inferInstanceAs (Decidable (y < x))
  | .ge => inferInstanceAs (Decidable (y ≤ x))
  | .lt => inferInstanceAs (Decidable (x < y))
  | .le => inferInstanceAs (Decidable (x ≤ y))
  | .eq => inferInstanceAs (Decidable (x = y))
  | .other _ => inferInstanceAs (Decidable False)

namespace Article

/-- A term stands in the title, in the content or in the summary, whatever its case and without
regard to markup. -/
def Mentions (a : Article) (term : Text) : Prop :=
  Text.fold term <:+: Text.fold a.title ∨ Text.fold term <:+: Text.fold (stripMarkup a.content) ∨
    Text.fold term <:+: Text.fold (stripMarkup a.summary)

/-- A value stands in the field of that name, or is the name of the category. -/
def FieldMatches (a : Article) (name value : Text) : Prop :=
  name = FieldName.title.text ∧ Text.fold value <:+: Text.fold a.title ∨
  name = FieldName.content.text ∧ Text.fold value <:+: Text.fold (stripMarkup a.content) ∨
  name = FieldName.category.text ∧ ∃ c ∈ a.category, Text.fold c.name = Text.fold value

/-- The day of an article compares so with the day that a text names. -/
def DayCompares (a : Article) (op : Comparison) (value : Text) : Prop :=
  ∃ d ∈ Date.ofText? value, op.Relates a.createdAt.date.rank d.rank

/-- The day of an article is one of those from `low` to `high`. -/
def DayWithin (a : Article) (low high : Text) : Prop :=
  ∃ l ∈ Date.ofText? low, ∃ h ∈ Date.ofText? high,
    l.rank ≤ a.createdAt.date.rank ∧ a.createdAt.date.rank ≤ h.rank

/-- The views of an article compare so with the number that a text of digits spells. -/
def ViewsCompare (a : Article) (op : Comparison) (value : Text) : Prop :=
  op.Relates a.viewCount (Text.asciiValue value)

instance (a : Article) (term : Text) : Decidable (a.Mentions term) :=
  inferInstanceAs (Decidable (_ ∨ _))

instance (a : Article) (name value : Text) : Decidable (a.FieldMatches name value) :=
  inferInstanceAs (Decidable (_ ∧ _ ∨ _))

instance (a : Article) (op : Comparison) (value : Text) : Decidable (a.DayCompares op value) :=
  inferInstanceAs (Decidable (∃ d ∈ Date.ofText? value, _))

instance (a : Article) (low high : Text) : Decidable (a.DayWithin low high) :=
  inferInstanceAs (Decidable (∃ l ∈ Date.ofText? low, _))

instance (a : Article) (op : Comparison) (value : Text) : Decidable (a.ViewsCompare op value) :=
  inferInstanceAs (Decidable (op.Relates _ _))

end Article

/-- Whether a token, as a condition of its own, holds of an article. -/
def Token.Holds (a : Article) : Token → Prop
  | .word t => a.Mentions t
  | .phrase t => a.Mentions t
  | .field name value _ => a.FieldMatches name value
  | .range name op value =>
    if name = dateField then a.DayCompares op value else a.ViewsCompare op value
  | .dates low high => a.DayWithin low high
  | _ => False

instance (a : Article) (t : Token) : Decidable (t.Holds a) :=
  match t with
  | .word t => inferInstanceAs (Decidable (a.Mentions t))
  | .phrase t => inferInstanceAs (Decidable (a.Mentions t))
  | .field name value _ => inferInstanceAs (Decidable (a.FieldMatches name value))
  | .range name op value =>
    inferInstanceAs
      (Decidable (if name = dateField then a.DayCompares op value else a.ViewsCompare op value))
  | .dates low high => inferInstanceAs (Decidable (a.DayWithin low high))
  | .sort _ _ | .connective _ | .exclude _ | .unknown => inferInstanceAs (Decidable False)

end ArticleArchive
