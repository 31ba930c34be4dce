import Mathlib.Data.List.Chain
import ArticleArchive.Text.Basic

namespace ArticleArchive.Text

/-- The text has no blank at its ends, and inside it blanks are spaces that stand alone. -/
structure IsTidy (t : Text) : Prop where
  ne_nil : t ≠ []
  head : ∀ c ∈ t.head?, isBlank c = false
  last : ∀ c ∈ t.getLast?, isBlank c = false
  spaces : ∀ c ∈ t, isBlank c = true → c = ' '
  apart : t.IsChain fun c d => isBlank c = false ∨ isBlank d = false

/-- A word is not empty and has no blank in it. -/
def IsWord (w : Text) : Prop :=
  w ≠ [] ∧ ∀ c ∈ w, isBlank c = false

/-- A text without a word in it is all blanks. -/
def HasWord (t : Text) : Prop :=
  ∃ c ∈ t, isBlank c = false

theorem isWord_singleton {c : Char} (hc : isBlank c = false) : IsWord [c] :=
  ⟨List.cons_ne_nil c [], by simpa using hc⟩

theorem isWord_of_mem_consWord {c : Char} (hc : isBlank c = false) {ws : List Text}
    (hws : ∀ w ∈ ws, IsWord w) : ∀ w ∈ consWord c ws, IsWord w := by
  cases ws with
  | nil => simpa [consWord] using isWord_singleton hc
  | cons v ws =>
    obtain ⟨hv, hws⟩ := List.forall_mem_cons.mp hws
    have hcv : IsWord (c :: v) := ⟨List.cons_ne_nil c v, by simpa [hc] using hv.2⟩
    exact List.forall_mem_cons.mpr ⟨hcv, hws⟩

theorem isWord_of_mem_words (t : Text) : ∀ w ∈ words t, IsWord w := by
  fun_induction words t with
  | case1 => simp
  | case2 c cs hc ih => exact ih
  | case3 c cs hc hd ih =>
    exact List.forall_mem_cons.mpr ⟨isWord_singleton (by simpa using hc), ih⟩
  | case4 c cs hc hd ih => exact isWord_of_mem_consWord (by simpa using hc) ih

theorem IsWord.isTidy {w : Text} (h : IsWord w) : IsTidy w where
  ne_nil := h.1
  head c hc := h.2 c (List.mem_of_mem_head? hc)
  last c hc := h.2 c (List.mem_of_mem_getLast? hc)
  spaces c hc hb := by simp [h.2 c hc] at hb
  apart := (List.pairwise_of_forall_mem_list fun c hc _ _ => .inl (h.2 c hc)).isChain

theorem IsWord.isTidy_append {w t : Text} (h : IsWord w) (ht : IsTidy t) :
    IsTidy (w ++ ' ' :: t) where
  ne_nil := by simp
  head := by
    rw [List.head?_append_of_ne_nil _ h.1]
    exact h.isTidy.head
  last := by
    rw [List.getLast?_append_of_ne_nil _ (List.cons_ne_nil _ _),
      List.getLast?_cons_of_ne_nil ht.ne_nil]
    exact ht.last
  spaces := by
    intro c hc hb
    rcases List.mem_append.mp hc with hc | hc
    · exact h.isTidy.spaces c hc hb
    · rcases List.mem_cons.mp hc with rfl | hc
      · rfl
      · exact ht.spaces c hc hb
  apart := by
    refine h.isTidy.apart.append (ht.apart.cons fun c hc => .inr (ht.head c hc)) ?_
    intro c hc d _
    exact .inl (h.isTidy.last c hc)

theorem isTidy_intercalate {ws : List Text} (hne : ws ≠ []) (hws : ∀ w ∈ ws, IsWord w) :
    IsTidy ([' '].intercalate ws) := by
  induction ws with
  | nil => exact absurd rfl hne
  | cons w ws ih =>
    obtain ⟨hw, hws⟩ := List.forall_mem_cons.mp hws
    cases ws with
    | nil => simpa using hw.isTidy
    | cons v ws =>
      have hrest := ih (List.cons_ne_nil v ws) hws
      simpa [List.intercalate] using hw.isTidy_append hrest

theorem isTidy_singleSpaced {t : Text} (h : singleSpaced t ≠ []) : IsTidy (singleSpaced t) := by
  refine isTidy_intercalate ?_ (isWord_of_mem_words t)
  intro hws
  simp [singleSpaced, hws] at h

theorem consWord_ne_nil (c : Char) (ws : List Text) : consWord c ws ≠ [] := by
  cases ws <;> simp [consWord]

theorem words_ne_nil_iff {t : Text} : words t ≠ [] ↔ t.HasWord := by
  fun_induction words t with
  | case1 => simp [HasWord]
  | case2 c cs hc ih => simpa [HasWord, hc] using ih
  | case3 c cs hc hd ih =>
    have hword : HasWord (c :: cs) := ⟨c, List.mem_cons_self, by simpa using hc⟩
    exact iff_of_true (List.cons_ne_nil _ _) hword
  | case4 c cs hc hd ih =>
    have hword : HasWord (c :: cs) := ⟨c, List.mem_cons_self, by simpa using hc⟩
    exact iff_of_true (consWord_ne_nil _ _) hword

theorem singleSpaced_ne_nil_iff {t : Text} : singleSpaced t ≠ [] ↔ t.HasWord := by
  rw [← words_ne_nil_iff]
  constructor
  · intro h hws
    simp [singleSpaced, hws] at h
  · intro h
    exact (isTidy_intercalate h (isWord_of_mem_words t)).ne_nil

end ArticleArchive.Text
