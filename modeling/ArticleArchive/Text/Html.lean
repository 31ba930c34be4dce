import ArticleArchive.Text.Quoted

namespace ArticleArchive.Text

def htmlChar (c : Char) : Text :=
  if c = '&' then "&amp;".toList
  else if c = '<' then "&lt;".toList
  else if c = '>' then "&gt;".toList
  else if c = '"' then "&quot;".toList
  else if c = apostrophe then "&#x27;".toList
  else [c]

def htmlEscape (t : Text) : Text :=
  t.flatMap htmlChar

@[simp]
theorem htmlEscape_append (s t : Text) : htmlEscape (s ++ t) = htmlEscape s ++ htmlEscape t :=
  List.flatMap_append

/-- The characters that are not written as they are. -/
def htmlReserved : List Char := ['&', '<', '>', '"', apostrophe]

theorem htmlChar_of_notMem {c : Char} (h : c ∉ htmlReserved) : htmlChar c = [c] := by
  simp only [htmlReserved, List.mem_cons, List.not_mem_nil, or_false, not_or] at h
  rw [htmlChar, if_neg h.1, if_neg h.2.1, if_neg h.2.2.1, if_neg h.2.2.2.1, if_neg h.2.2.2.2]

theorem htmlChar_ne_nil (c : Char) : htmlChar c ≠ [] := by
  by_cases hc : c ∈ htmlReserved
  · have hall : htmlReserved.all (fun d => !(htmlChar d).isEmpty) = true := by decide
    simpa using List.all_eq_true.mp hall c hc
  · rw [htmlChar_of_notMem hc]
    exact List.cons_ne_nil c []

theorem htmlEscape_ne_nil {t : Text} (h : t ≠ []) : htmlEscape t ≠ [] := by
  cases t with
  | nil => exact absurd rfl h
  | cons c t =>
    rw [htmlEscape, List.flatMap_cons]
    exact List.append_ne_nil_of_left_ne_nil (htmlChar_ne_nil c) _

theorem ne_angle_of_mem_htmlChar {c d : Char} (h : c ∈ htmlChar d) : c ≠ '<' ∧ c ≠ '>' := by
  by_cases hd : d ∈ htmlReserved
  · have hall : htmlReserved.all (fun d => (htmlChar d).all fun c => c != '<' && c != '>') = true :=
      by decide
    simpa using List.all_eq_true.mp (List.all_eq_true.mp hall d hd) c h
  · rw [htmlChar_of_notMem hd, List.mem_singleton] at h
    subst h
    simp only [htmlReserved, List.mem_cons, List.not_mem_nil, or_false, not_or] at hd
    exact ⟨hd.2.1, hd.2.2.1⟩

theorem ne_angle_of_mem_htmlEscape {c : Char} {t : Text} (h : c ∈ htmlEscape t) :
    c ≠ '<' ∧ c ≠ '>' := by
  obtain ⟨d, -, hd⟩ := List.mem_flatMap.mp h
  exact ne_angle_of_mem_htmlChar hd

end ArticleArchive.Text
