import ArticleArchive.Proofs.Results
import ArticleArchive.Service.Document

namespace ArticleArchive

namespace Checked

variable {α β : Type} {P Q : Json → Prop}

/-- The values in the mismatches have a property. -/
def Shows (P : Json → Prop) (x : Checked α) : Prop :=
  ∀ es, x = .error es → ∀ e ∈ es, P e.input

theorem shows_ok (a : α) : Shows P (.ok a) := by
  intro es h
  simp at h

theorem shows_fail {v : Json} (m : Mismatch) (hv : P v) : Shows P (fail m v : Checked α) := by
  intro es h e he
  obtain rfl := Except.error.inj h
  obtain rfl := List.mem_singleton.mp he
  exact hv

theorem Shows.mono {x : Checked α} (hx : x.Shows P) (h : ∀ v, P v → Q v) : x.Shows Q :=
  fun es hes e he => h _ (hx es hes e he)

theorem Shows.apply {f : Checked (α → β)} {x : Checked α} (hf : f.Shows P) (hx : x.Shows P) :
    (Checked.apply f x).Shows P := by
  intro es h e he
  cases f with
  | ok g =>
    cases x with
    | ok a => simp [Checked.apply] at h
    | error fs =>
      obtain rfl := Except.error.inj h
      exact hx fs rfl e he
  | error gs =>
    cases x with
    | ok a =>
      obtain rfl := Except.error.inj h
      exact hf gs rfl e he
    | error fs =>
      obtain rfl := Except.error.inj h
      exact (List.mem_append.mp he).elim (hf gs rfl e) (hx fs rfl e)

theorem Shows.under {x : Checked α} (hx : x.Shows P) (p : PathPart) :
    (Checked.under p x).Shows P := by
  intro es h e he
  obtain ⟨fs, hfs, rfl⟩ := mapError_eq_error_iff.mp h
  obtain ⟨e', he', rfl⟩ := List.mem_map.mp he
  exact hx fs hfs e' he'

theorem Shows.map {x : Checked α} (hx : x.Shows P) (f : α → β) : Shows P (Except.map f x) := by
  cases x with
  | ok a => exact shows_ok (f a)
  | error fs =>
    intro es h e he
    obtain rfl := Except.error.inj h
    exact hx fs rfl e he

theorem shows_all {check : α → Checked β} {vs : List α} (h : ∀ v ∈ vs, (check v).Shows P) :
    (Checked.all check vs).Shows P := by
  induction vs with
  | nil => exact shows_ok []
  | cons v vs ih =>
    obtain ⟨hv, hvs⟩ := List.forall_mem_cons.mp h
    exact ((shows_ok _).apply hv).apply (ih hvs)

end Checked

namespace Json

theorem haveFinite_iff {fields : List (Text × Json)} :
    haveFinite fields = true ↔ ∀ f ∈ fields, f.2.isFinite = true := by
  induction fields with
  | nil => simp [haveFinite]
  | cons f fields ih => simp [haveFinite, ih]

theorem isFinite_of_field? {name : Text} {fields : List (Text × Json)} {v : Json}
    (h : haveFinite fields = true) (hv : field? name fields = some v) : v.isFinite = true := by
  obtain ⟨before, after, rfl, -⟩ := List.lookup_eq_some_iff.mp hv
  exact haveFinite_iff.mp h (name, v) (by simp)

end Json

/-- If the numbers in a value are finite, so are those in its mismatches. -/
def Shape.KeepsFinite {α : Type} (check : Json → Checked α) : Prop :=
  ∀ v, v.isFinite = true → (check v).Shows fun w => w.isFinite = true

namespace Shape

variable {α : Type} {check : Json → Checked α} {fields : List (Text × Json)}

theorem keepsFinite_leaf (read : Json → Reading α) : KeepsFinite (leaf read) := by
  intro v hv es h e he
  obtain ⟨m, -, rfl⟩ := mapError_eq_error_iff.mp h
  obtain rfl := List.mem_singleton.mp he
  exact hv

theorem KeepsFinite.required (h : KeepsFinite check) (hfields : Json.haveFinite fields = true)
    (name : Text) : (required name check fields).Shows fun w => w.isFinite = true := by
  unfold Shape.required
  apply Checked.Shows.under
  split
  · rename_i v hv
    exact h v (Json.isFinite_of_field? hfields hv)
  · exact Checked.shows_fail .missing hfields

theorem KeepsFinite.optional (h : KeepsFinite check) (hfields : Json.haveFinite fields = true)
    (name : Text) (absent : α) :
    (optional name absent check fields).Shows fun w => w.isFinite = true := by
  unfold Shape.optional
  split
  · rename_i v hv
    exact (h v (Json.isFinite_of_field? hfields hv)).under _
  · exact Checked.shows_ok absent

theorem KeepsFinite.nullable (h : KeepsFinite check) : KeepsFinite (nullable check) := by
  intro v hv
  unfold Shape.nullable
  split
  · exact Checked.shows_ok none
  · exact (h v hv).map some

theorem keepsFinite_object {check : List (Text × Json) → Checked α}
    (h : ∀ fields, Json.haveFinite fields = true →
      (check fields).Shows fun w => w.isFinite = true) : KeepsFinite (object check) := by
  intro v hv
  unfold object
  split
  · exact h _ hv
  · exact Checked.shows_fail .objectType hv

end Shape

open Shape

namespace Submission

theorem keepsFinite_category : KeepsFinite category :=
  keepsFinite_object fun _ h =>
    ((Checked.shows_ok _).apply ((keepsFinite_leaf Shape.integer).nullable.optional h _ _)).apply
      ((keepsFinite_leaf Shape.text).required h _)

theorem keepsFinite_localization : KeepsFinite localization :=
  keepsFinite_object fun _ h =>
    (((Checked.shows_ok _).apply ((keepsFinite_leaf Shape.text).required h _)).apply
      ((keepsFinite_leaf Shape.text).optional h _ _)).apply
      ((keepsFinite_leaf Shape.text).optional h _ _)

theorem keepsFinite_localizations : KeepsFinite localizations := by
  intro v hv
  unfold localizations
  split
  · rename_i rows
    refine Checked.shows_all fun row hrow => ?_
    exact ((keepsFinite_localization row.2 (Json.haveFinite_iff.mp hv row hrow)).map _).under _
  · exact Checked.shows_fail .dictType hv

theorem shows_ofFields {fields : List (Text × Json)} (h : Json.haveFinite fields = true) :
    (ofFields fields).Shows fun w => w.isFinite = true := by
  have text (name : Text) := (keepsFinite_leaf Shape.text).optional h name []
  refine ((((((((Checked.shows_ok _).apply ?id).apply ?title).apply (text _)).apply
    (text _)).apply ?category).apply ?time).apply ?viewCount).apply ?localizations
  case id => exact (keepsFinite_leaf _).required h _
  case title => exact (keepsFinite_leaf _).required h _
  case category => exact keepsFinite_category.nullable.optional h _ _
  case time => exact (keepsFinite_leaf time).required h _
  case viewCount => exact (keepsFinite_leaf _).optional h _ _
  case localizations => exact keepsFinite_localizations.optional h _ _

/-- If the numbers in a body are finite, so are those in its mismatches. -/
theorem shows_ofBody {body : Option Json} (h : ∀ v, body = some v → v.isFinite = true) :
    (ofBody body).Shows fun w => w.isFinite = true := by
  unfold ofBody
  split
  · exact Checked.shows_fail .missing rfl
  · exact Checked.shows_fail .missing rfl
  · rename_i v _
    exact keepsFinite_object (fun _ => shows_ofFields) v (h v rfl)

end Submission

end ArticleArchive
