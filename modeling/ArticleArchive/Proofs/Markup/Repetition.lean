import Mathlib.Logic.Function.Iterate
import ArticleArchive.Proofs.Markup.Prose

namespace ArticleArchive

namespace Markup

variable {m : Markup} {ms : List Markup} {t : Text}

theorem length_removeAll_lt (hms : ∀ m ∈ ms, m.Deletes) (hm : m ∈ ms) (h : m.Occurs t) :
    (removeAll ms t).length < t.length := by
  induction ms with
  | nil => cases hm
  | cons k ms ih =>
    obtain ⟨hk, hms⟩ := List.forall_mem_cons.mp hms
    rw [removeAll_cons]
    -- the first kind that is found makes the text shorter, the kinds before it leave it alone
    by_cases hfound : k.Occurs t
    · exact Nat.lt_of_le_of_lt (removeAll_sublist hms _).length_le (length_remove_lt hk hfound)
    · rw [remove_eq_self hfound]
      rcases List.mem_cons.mp hm with rfl | hm
      · exact absurd h hfound
      · exact ih hms hm

theorem isFree_nil : IsFree [] := fun _ hm hfound =>
  (deletes_of_mem_kinds hm).not_occursAfter_nil (occurs_iff.mp hfound)

theorem length_stripMarkup_le_removeAll (t : Text) :
    (stripMarkup t).length ≤ (removeAll kinds t).length :=
  (Text.length_strip_le _).trans (Text.length_collapseSpaces_le _)

theorem length_stripMarkup_le (t : Text) : (stripMarkup t).length ≤ t.length :=
  (length_stripMarkup_le_removeAll t).trans
    (removeAll_sublist (fun _ => deletes_of_mem_kinds) t).length_le

theorem length_stripMarkup_lt (h : ¬ IsFree t) : (stripMarkup t).length < t.length := by
  obtain ⟨m, hm, hfound⟩ : ∃ m ∈ kinds, m.Occurs t := by simpa [IsFree] using h
  exact (length_stripMarkup_le_removeAll t).trans_lt
    (length_removeAll_lt (fun _ => deletes_of_mem_kinds) hm hfound)

/-- White space is in order after the first time, so only markup can be taken away the next time. -/
theorem stripMarkup_stripMarkup (h : IsFree (stripMarkup t)) :
    stripMarkup (stripMarkup t) = stripMarkup t := by
  rw [stripMarkup_eq (stripMarkup t), removeAll_eq_self h]
  rw [stripMarkup_eq, (Text.isCollapsed_strip_collapseSpaces _).collapseSpaces_eq, Text.strip_strip]

theorem isFree_or_length_iterate_le (t : Text) (n : Nat) :
    IsFree (stripMarkup^[n + 1] t) ∨ (stripMarkup^[n + 1] t).length + n ≤ t.length := by
  induction n with
  | zero => exact .inr (length_stripMarkup_le t)
  | succ n ih =>
    rw [Function.iterate_succ_apply' stripMarkup (n + 1)]
    by_cases hfree : IsFree (stripMarkup^[n + 1] t)
    · left
      rw [Function.iterate_succ_apply'] at hfree ⊢
      rwa [stripMarkup_stripMarkup hfree]
    · right
      have := length_stripMarkup_lt hfree
      have := ih.resolve_left hfree
      omega

end Markup

open Markup

/-- Stripping a text again changes nothing if and only if no kind of markup is found in what the
first time left, and makes it shorter otherwise, so that after one time more than the text has
characters none is found. Once is enough for prose whose pieces of markup stand apart and hold
plain text. -/
theorem stripMarkup_repeated (t : Text) :
    (stripMarkup (stripMarkup t) = stripMarkup t ↔ IsFree (stripMarkup t)) ∧
      (¬ IsFree (stripMarkup t) → (stripMarkup (stripMarkup t)).length < (stripMarkup t).length) ∧
      (∀ n, t.length < n → IsFree (stripMarkup^[n] t)) ∧
      ∀ p : Prose, p.IsSound → t = p.source → IsFree (stripMarkup t) := by
  refine ⟨⟨fun h => ?_, stripMarkup_stripMarkup⟩, length_stripMarkup_lt, fun n hn => ?_, ?_⟩
  · by_contra hfound
    exact (length_stripMarkup_lt hfound).ne (congrArg List.length h)
  · obtain ⟨k, rfl⟩ := Nat.exists_eq_add_one_of_ne_zero (Nat.ne_zero_of_lt hn)
    rcases isFree_or_length_iterate_le t k with hfree | hlen
    · exact hfree
    · have hnil : stripMarkup^[k + 1] t = [] := List.length_eq_zero_iff.mp (by omega)
      rw [hnil]
      exact isFree_nil
  · rintro p hp rfl
    exact (stripMarkup_source hp).2

/-- Emphasis over the end of a line stays, and is read as emphasis once the two lines are one. -/
theorem stripMarkup_not_free_over_lines :
    stripMarkup "This is **very\nimportant** here.".toList =
        "This is **very important** here.".toList ∧
      ¬ IsFree "This is **very important** here.".toList := by
  have hfirst : stripMarkup "This is **very\nimportant** here.".toList =
      "This is **very important** here.".toList := by decide +kernel
  refine ⟨hfirst, fun hfree => ?_⟩
  have hagain := (stripMarkup_repeated "This is **very\nimportant** here.".toList).1
  rw [hfirst] at hagain
  exact absurd (hagain.mpr hfree) (by decide +kernel)

end ArticleArchive
