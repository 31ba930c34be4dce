import ArticleArchive.Proofs.Markup.Constructs
import ArticleArchive.Proofs.Text.Spacing

namespace ArticleArchive

/-- No mark in the text can be read as markup: there are no brackets and backticks, no line starts
with a hash, and of the stars either none closes emphasis or none opens it. -/
structure Text.IsBare (t : Text) : Prop where
  bracket : '[' ∉ t
  backtick : Markup.backtick ∉ t
  start : '#' ∉ t.head?
  lines : t.IsChain fun c d => c = '\n' → d ≠ '#'
  stars : (t.IsChain fun c d => d = '*' → Text.isSpace c = true ∨ c = '*') ∨
    t.IsChain fun c d => c = '*' → Text.isSpace d = true ∨ d = '*'

namespace Markup

variable {m : Markup} {ms : List Markup} {t : Text}

def removeAll (ms : List Markup) (t : Text) : Text :=
  ms.foldl (fun t m => m.remove t) t

theorem removeAll_cons (m : Markup) (ms : List Markup) (t : Text) :
    removeAll (m :: ms) t = removeAll ms (m.remove t) :=
  rfl

theorem removeAll_sublist (hms : ∀ m ∈ ms, m.Deletes) (t : Text) : (removeAll ms t).Sublist t := by
  induction ms generalizing t with
  | nil => exact List.Sublist.refl t
  | cons m ms ih =>
    obtain ⟨hm, hms⟩ := List.forall_mem_cons.mp hms
    exact (ih hms _).trans (remove_sublist hm t)

theorem removeAll_eq_self (h : ∀ m ∈ ms, ¬ m.Occurs t) : removeAll ms t = t := by
  induction ms with
  | nil => rfl
  | cons m ms ih =>
    obtain ⟨hm, hms⟩ := List.forall_mem_cons.mp h
    rw [removeAll_cons, remove_eq_self hm, ih hms]

theorem emphasis_eq_none_of_isBare {stars : Nat} (hstars : 0 < stars) {u v : Text}
    (ht : (u ++ v).IsBare) : emphasis stars u.getLast? v = none := by
  have hhugged {c : Char} (hc : isHugged c = true) : ¬ (Text.isSpace c = true ∨ c = '*') := by
    simpa [isHugged] using hc
  rw [Option.eq_none_iff_forall_ne_some]
  rintro ⟨n, kept⟩ hfound
  obtain ⟨c, d, hc, hd, hopen, hclose⟩ := exists_hugged_of_emphasis hstars hfound
  have hv := (List.suffix_append u v).isInfix
  rcases ht.stars with h | h
  · exact hhugged hd (rel_of_isInfix h (hclose.trans hv) rfl)
  · exact hhugged hc (rel_of_isInfix h (hopen.trans hv) rfl)

theorem not_occurs_of_isBare (ht : t.IsBare) (hm : m ∈ kinds) : ¬ m.Occurs t := by
  have hstars {stars : Nat} (hstars : 0 < stars) : ¬ (emphasis stars).Occurs t := by
    rintro ⟨u, v, rfl, hfound⟩
    simp [emphasis_eq_none_of_isBare hstars ht] at hfound
  simp only [kinds, List.mem_cons, List.not_mem_nil, or_false] at hm
  -- every kind but one needs a mark that the text lacks; headers need a line that starts with one
  obtain rfl | rfl | rfl | rfl | rfl | rfl := hm
  · exact startsWithPair_image.not_occurs ht.bracket
  · exact startsWith_link.not_occurs ht.bracket
  · rintro ⟨u, v, rfl, hfound⟩
    obtain ⟨⟨n, kept⟩, hfound⟩ := Option.isSome_iff_exists.mp hfound
    obtain ⟨cs, rfl⟩ := List.head?_eq_some_iff.mp (startsWith_header _ _ _ hfound)
    rcases (header_eq_some_iff.mp hfound).1 with hstart | hline
    · rw [List.getLast?_eq_none_iff] at hstart
      subst hstart
      exact ht.start rfl
    · obtain ⟨ds, rfl⟩ := List.getLast?_eq_some_iff.mp hline
      have hpair : ['\n', '#'] <:+: ds ++ ['\n'] ++ '#' :: cs := ⟨ds, cs, by simp⟩
      exact rel_of_isInfix ht.lines hpair rfl rfl
  · exact hstars Nat.two_pos
  · exact hstars Nat.one_pos
  · exact startsWith_code.not_occurs ht.backtick

/-- No kind of markup is found in the text. -/
def IsFree (t : Text) : Prop :=
  ∀ m ∈ kinds, ¬ m.Occurs t

end Markup

open Markup

theorem stripMarkup_eq (t : Text) :
    stripMarkup t = Text.strip (Text.collapseSpaces (removeAll kinds t)) :=
  rfl

/-- Stripping only takes away: the characters that are no spaces are some of those of the text, in
their order; nothing blank is left at the ends, and between other characters no space but single
U+0020. If no mark in the text can be read as markup, then nothing but white space is lost, and
every star, in particular, is kept. -/
theorem stripMarkup_deletes (t : Text) :
    ((stripMarkup t).filter fun c => !Text.isSpace c).Sublist (t.filter fun c => !Text.isSpace c) ∧
      (∀ c ∈ (stripMarkup t).head?, Text.isBlank c = false) ∧
      (∀ c ∈ (stripMarkup t).getLast?, Text.isBlank c = false) ∧
      (stripMarkup t).IsCollapsed ∧
      (t.IsBare → stripMarkup t = Text.strip (Text.collapseSpaces t) ∧
        (stripMarkup t).filter (fun c => !Text.isBlank c) = t.filter fun c => !Text.isBlank c) := by
  rw [stripMarkup_eq]
  refine ⟨?_, Text.head_trimBy _ _, Text.last_trimBy _ _, Text.isCollapsed_strip_collapseSpaces _,
    fun ht => ?_⟩
  · have hstrip := (Text.trimBy_isInfix Text.isBlank
      (Text.collapseSpaces (removeAll kinds t))).sublist.filter fun c => !Text.isSpace c
    rw [Text.filter_collapseSpaces (by simp)] at hstrip
    exact hstrip.trans ((removeAll_sublist (fun _ => deletes_of_mem_kinds) t).filter _)
  · rw [removeAll_eq_self fun m hm => not_occurs_of_isBare ht hm]
    refine ⟨rfl, ?_⟩
    rw [Text.strip, Text.filter_trimBy (by simp),
      Text.filter_collapseSpaces fun c hc => by simp [Text.isBlank_of_isSpace hc]]

/-- The stars of a declaration open emphasis and close none. -/
theorem stripMarkup_keeps_pointers :
    Text.IsBare "int *a,\n *b;".toList ∧
      stripMarkup "int *a,\n *b;".toList = "int *a, *b;".toList := by
  have hbare : Text.IsBare "int *a,\n *b;".toList :=
    ⟨by decide, by decide, by decide, by decide, .inl (by decide)⟩
  refine ⟨hbare, ?_⟩
  rw [((stripMarkup_deletes _).2.2.2.2 hbare).1]
  decide

end ArticleArchive
