import ArticleArchive.Proofs.Markup.Stripping

namespace ArticleArchive.Markup

variable {m : Markup} {before : Option Char} {v : Text}

/-- The characters that markup starts with, but for the exclamation mark of an image. -/
def marks : Text := ['[', '#', '*', backtick]

theorem isSpace_of_mem_marks {c : Char} (hc : c ∈ marks) : Text.isSpace c = false := by
  simp only [marks, List.mem_cons, List.not_mem_nil, or_false] at hc
  obtain rfl | rfl | rfl | rfl := hc <;> rfl

def IsPlain (t : Text) : Prop :=
  ∀ c ∈ t, c ∉ marks

theorem IsPlain.notMem {t : Text} {o : Char} (ht : IsPlain t) (ho : o ∈ marks) : o ∉ t :=
  fun h => ht o h ho

/-- Plain text between stars. -/
def emphasized (stars : Nat) (inner : Text) : Text :=
  List.replicate stars '*' ++ (inner ++ List.replicate stars '*')

/-- Text that stars can stand around. -/
structure IsEmphasis (inner : Text) : Prop where
  plain : IsPlain inner
  line : '\n' ∉ inner
  ne_nil : inner ≠ []
  first : ∀ c ∈ inner.head?, Text.isSpace c = false
  last : ∀ c ∈ inner.getLast?, Text.isSpace c = false

inductive Piece where
  | image (label target : Text)
  | link (label target : Text)
  | header (hashes spaces : Text)
  | bold (inner : Text)
  | italic (inner : Text)
  | code (inner : Text)

namespace Piece

/-- A piece as it is written. -/
def source : Piece → Text
  | image label target => '!' :: reference label target
  | link label target => reference label target
  | header hashes spaces => hashes ++ spaces
  | bold inner => emphasized 2 inner
  | italic inner => emphasized 1 inner
  | code inner => backtick :: (inner ++ [backtick])

/-- A piece as it is read. -/
def readable : Piece → Text
  | image _ _ => []
  | link label _ => label
  | header _ _ => []
  | bold inner => inner
  | italic inner => inner
  | code inner => inner

/-- The piece has the form of its kind, and what it holds is plain. -/
def IsSound : Piece → Prop
  | image label target => IsReference label target
  | link label target => IsReference label target ∧ label ≠ [] ∧ IsPlain label ∧ '[' ∉ target
  | header hashes spaces => IsHeader hashes spaces
  | bold inner => IsEmphasis inner
  | italic inner => IsEmphasis inner
  | code inner => IsPlain inner ∧ '\n' ∉ inner

/-- The piece can stand after a character. -/
def FitsAfter : Piece → Option Char → Prop
  | image _ _, _ => True
  | link _ _, before => before ≠ some '!'
  | header _ _, before => before = none ∨ before = some '\n'
  | bold _, before => isBoundary before = true
  | italic _, before => isBoundary before = true
  | code _, _ => True

def FitsBefore : Piece → Option Char → Prop
  | image _ _, _ => True
  | link _ _, _ => True
  | header _ _, after => ∀ c ∈ after, Text.isSpace c = false
  | bold _, after => isBoundary after = true
  | italic _, after => isBoundary after = true
  | code _, _ => True

def rank : Piece → Nat
  | image _ _ => 0
  | link _ _ => 1
  | header _ _ => 2
  | bold _ => 3
  | italic _ => 4
  | code _ => 5

/-- The piece after the first `k` kinds of markup are removed. -/
def form (k : Nat) (p : Piece) : Text :=
  if p.rank < k then p.readable else p.source

end Piece

theorem emphasis_emphasized {stars : Nat} {inner : Text} (hstars : 0 < stars)
    (h : IsEmphasis inner) (hbefore : isBoundary before = true)
    (hafter : isBoundary v.head? = true) :
    emphasis stars before (emphasized stars inner ++ v) =
      some ((emphasized stars inner).length, inner) := by
  obtain ⟨c, inner, rfl⟩ := List.exists_cons_of_ne_nil h.ne_nil
  obtain ⟨k, rfl⟩ := Nat.exists_eq_add_one_of_ne_zero hstars.ne'
  have hstar : '*' ∉ c :: inner := h.plain.notMem (by decide)
  have hhugged : ∀ d ∈ c :: inner, Text.isSpace d = false → isHugged d = true := by
    intro d hd hspace
    simpa [isHugged, hspace] using ne_of_mem_of_not_mem hd hstar
  have hclose : Closes (k + 1) (inner.getLastD c) (List.replicate (k + 1) '*' ++ v) := by
    refine ⟨hhugged _ List.getLastD_mem_cons (h.last _ ?_), v, rfl, hafter⟩
    rw [← List.getLast_eq_getLastD (List.cons_ne_nil c inner)]
    exact List.getLast?_eq_some_getLast _
  rw [emphasis_eq_some_iff]
  refine ⟨hbefore, c, inner, List.replicate (k + 1) '*' ++ v, by simp [emphasized],
    hhugged c List.mem_cons_self (h.first c rfl), ?_, rfl, ?_⟩
  · rw [readEmphasized?_eq_some_iff]
    refine ⟨_, rfl, by simp [List.replicate_succ], hclose,
      fun hline => h.line (List.mem_cons_of_mem c hline), ?_⟩
    -- an end any nearer would be a star in the plain text
    rintro u w rfl hw ⟨-, rest, hparts, -⟩
    obtain ⟨d, w, rfl⟩ := List.exists_cons_of_ne_nil hw
    obtain rfl : d = '*' := (List.cons.inj hparts).1
    exact hstar (by simp)
  · simp only [emphasized, List.length_append, List.length_replicate]
    omega

namespace Piece

variable {p : Piece} {k : Nat}

def kind : Piece → Markup
  | image _ _ => Markup.image
  | link _ _ => Markup.link
  | header _ _ => Markup.header
  | bold _ => Markup.bold
  | italic _ => Markup.italic
  | code _ => Markup.code

theorem source_ne_nil (hp : p.IsSound) : p.source ≠ [] := by
  cases p with
  | image label target => simp [source]
  | link label target => simp [source, reference]
  | header hashes spaces =>
    have hspaces := IsHeader.spaces_ne_nil hp
    simp [source, hspaces]
  | bold inner => simp [source, emphasized, List.replicate_succ]
  | italic inner => simp [source, emphasized, List.replicate_succ]
  | code inner => simp [source]

theorem kind_source (hp : p.IsSound) (hbefore : p.FitsAfter before)
    (hafter : p.FitsBefore v.head?) :
    p.kind before (p.source ++ v) = some (p.source.length, p.readable) := by
  cases p with
  | image label target =>
    rw [kind, image_eq_some_iff]
    exact ⟨label, target, v, rfl, hp, rfl, rfl⟩
  | link label target =>
    obtain ⟨href, hne, -⟩ := hp
    rw [kind, link_eq_some_iff]
    exact ⟨target, v, rfl, href, hne, rfl⟩
  | header hashes spaces =>
    exact header_eq_some_iff.mpr ⟨hbefore, rfl, hashes, spaces, v, List.append_assoc _ _ _, hp,
      hafter, List.length_append⟩
  | bold inner => exact emphasis_emphasized Nat.two_pos hp hbefore hafter
  | italic inner => exact emphasis_emphasized Nat.one_pos hp hbefore hafter
  | code inner =>
    obtain ⟨hplain, hline⟩ := hp
    rw [kind, code_eq_some_iff]
    exact ⟨v, by simp [source, readable], hplain.notMem (by decide), hline,
      by simp [source, readable]⟩

theorem isPlain_readable (hp : p.IsSound) : IsPlain p.readable := by
  cases p with
  | image label target => simp [IsPlain, readable]
  | link label target => exact hp.2.2.1
  | header hashes spaces => simp [IsPlain, readable]
  | bold inner => exact IsEmphasis.plain hp
  | italic inner => exact IsEmphasis.plain hp
  | code inner => exact hp.1

/-- The character that a piece starts with, or an image after its exclamation mark. -/
def mark : Piece → Char
  | image _ _ => '['
  | link _ _ => '['
  | header _ _ => '#'
  | bold _ => '*'
  | italic _ => '*'
  | code _ => backtick

/-- Images and links are gone before the marks of the others matter. -/
theorem notMem_source {o : Char} (hp : p.IsSound) (hrank : 2 ≤ p.rank) (ho : o ∈ marks)
    (hmark : o ≠ p.mark) : o ∉ p.source := by
  have hstars {stars : Nat} {inner : Text} (h : IsEmphasis inner) (ho' : o ≠ '*') :
      o ∉ emphasized stars inner := by
    simp [emphasized, h.plain.notMem ho, ho']
  cases p with
  | image label target => simp [rank] at hrank
  | link label target => simp [rank] at hrank
  | header hashes spaces =>
    intro hmem
    rcases List.mem_append.mp hmem with hmem | hmem
    · exact hmark (IsHeader.hash hp o hmem)
    · have hspace := IsHeader.space hp o hmem
      simp [isSpace_of_mem_marks ho] at hspace
  | bold inner => exact hstars hp hmark
  | italic inner => exact hstars hp hmark
  | code inner =>
    have hinner := IsPlain.notMem hp.1 ho
    have hmark : o ≠ backtick := hmark
    simp [source, hinner, hmark]

theorem notMem_form {o : Char} (hp : p.IsSound) (ho : o ∈ marks)
    (h : p.rank < k ∨ 2 ≤ p.rank ∧ o ≠ p.mark) : o ∉ p.form k := by
  unfold form
  split
  · exact (isPlain_readable hp).notMem ho
  · rename_i hk
    obtain ⟨hrank, hmark⟩ := h.resolve_left hk
    exact notMem_source hp hrank ho hmark

end Piece

/-- Pieces with the plain text after each of them, where they stand after a character. There is text
between any two. -/
inductive Follows : Option Char → List (Piece × Text) → Prop
  | nil (before : Option Char) : Follows before []
  | cons {before : Option Char} {p : Piece} {gap : Text} {ds : List (Piece × Text)} :
      p.IsSound → p.FitsAfter before → p.FitsBefore gap.head? → IsPlain gap →
      (gap = [] → ds = []) → Follows gap.getLast? ds → Follows before ((p, gap) :: ds)

def render (f : Piece → Text) : List (Piece × Text) → Text
  | [] => []
  | (p, gap) :: ds => f p ++ (gap ++ render f ds)

/-- Removing the kind of markup makes the next form of the pieces, and keeps the text between. -/
structure Advances (m : Markup) (k : Nat) : Prop where
  piece : ∀ (p : Piece) (before : Option Char) (v : Text), p.IsSound → p.FitsAfter before →
    p.FitsBefore v.head? → (∀ c ∈ v.head?, c ∉ marks) →
    m.removeFrom before 0 (p.form k ++ v) =
      p.form (k + 1) ++ m.removeFrom ((p.form k).getLast?.or before) 0 v
  gap : ∀ (gap : Text) (before : Option Char) (ds : List (Piece × Text)), IsPlain gap →
    Follows gap.getLast? ds → m.removeFrom before 0 (gap ++ render (Piece.form k) ds) =
      gap ++ m.removeFrom (gap.getLast?.or before) 0 (render (Piece.form k) ds)

variable {k : Nat}

theorem Advances.removeFrom_render (hm : Advances m k) {ds : List (Piece × Text)}
    (hds : Follows before ds) :
    m.removeFrom before 0 (render (Piece.form k) ds) = render (Piece.form (k + 1)) ds := by
  induction hds with
  | nil before => rfl
  | @cons before p gap ds hp hbefore hafter hgap hlast hds ih =>
    rw [render, render]
    by_cases hempty : gap = []
    -- only the last text may be empty, and nothing comes after it
    · obtain rfl := hempty
      obtain rfl := hlast rfl
      exact hm.piece p before [] hp hbefore hafter (by simp)
    · have hnext : (gap ++ render (Piece.form k) ds).head? = gap.head? :=
        List.head?_append_of_ne_nil _ hempty
      have hplain : ∀ c ∈ (gap ++ render (Piece.form k) ds).head?, c ∉ marks :=
        hnext ▸ fun c hc => hgap c (List.mem_of_mem_head? hc)
      rw [hm.piece p before _ hp hbefore (hnext ▸ hafter) hplain, hm.gap gap _ ds hgap hds,
        Option.or_of_isSome (by simpa using hempty), ih]

theorem Advances.remove_render (hm : Advances m k) {first : Text} {ds : List (Piece × Text)}
    (hfirst : IsPlain first) (hds : Follows first.getLast? ds) :
    m.remove (first ++ render (Piece.form k) ds) = first ++ render (Piece.form (k + 1)) ds := by
  rw [remove, hm.gap first none ds hfirst hds, Option.or_none, hm.removeFrom_render hds]

theorem Piece.form_of_rank_ne {p : Piece} (h : p.rank ≠ k) : p.form (k + 1) = p.form k := by
  unfold form
  by_cases hlt : p.rank < k
  · rw [if_pos hlt, if_pos (Nat.lt_succ_of_lt hlt)]
  · rw [if_neg hlt, if_neg (by omega)]

theorem Piece.kinds_rank (p : Piece) : kinds[p.rank]? = some p.kind := by
  cases p <;> rfl

theorem advance_piece (hm : kinds[k]? = some m) {p : Piece} (hp : p.IsSound)
    (hbefore : p.FitsAfter before) (hafter : p.FitsBefore v.head?)
    (hother : p.rank ≠ k → m.removeFrom before 0 (p.form k ++ v) =
      p.form k ++ m.removeFrom ((p.form k).getLast?.or before) 0 v) :
    m.removeFrom before 0 (p.form k ++ v) =
      p.form (k + 1) ++ m.removeFrom ((p.form k).getLast?.or before) 0 v := by
  by_cases hk : p.rank = k
  · obtain rfl : p.kind = m := Option.some.inj (p.kinds_rank.symm.trans (hk ▸ hm))
    have hform : p.form k = p.source := if_neg (by omega)
    have hnext : p.form (k + 1) = p.readable := if_pos (by omega)
    rw [hform, hnext]
    exact removeFrom_found (Piece.source_ne_nil hp) (Piece.kind_source hp hbefore hafter)
  · rw [Piece.form_of_rank_ne hk, hother hk]

theorem advances_of_startsWith {o : Char} (hm : kinds[k]? = some m) (hstart : m.StartsWith o)
    (ho : o ∈ marks)
    (hother : ∀ p : Piece, p.rank ≠ k → p.rank < k ∨ 2 ≤ p.rank ∧ o ≠ p.mark) :
    Advances m k where
  piece p _ _ hp hbefore hafter _ := advance_piece hm hp hbefore hafter fun hk =>
    removeFrom_of_notMem hstart (Piece.notMem_form hp ho (hother p hk))
  gap _ _ _ hgap _ := removeFrom_of_notMem hstart (hgap.notMem ho)

theorem advances_link : Advances link 1 := by
  refine advances_of_startsWith rfl startsWith_link (by decide) fun p hp => ?_
  cases p <;> simp [Piece.rank, Piece.mark, backtick] at hp ⊢

theorem advances_header : Advances header 2 := by
  refine advances_of_startsWith rfl startsWith_header (by decide) fun p hp => ?_
  cases p <;> simp [Piece.rank, Piece.mark, backtick] at hp ⊢

theorem advances_italic : Advances italic 4 := by
  refine advances_of_startsWith rfl (startsWith_emphasis Nat.one_pos) (by decide) fun p hp => ?_
  cases p <;> simp [Piece.rank, Piece.mark, backtick] at hp ⊢

theorem advances_code : Advances code 5 := by
  refine advances_of_startsWith rfl startsWith_code (by decide) fun p hp => ?_
  cases p <;> simp [Piece.rank, Piece.mark, backtick] at hp ⊢

theorem isChain_of_notMem_tail {o o' : Char} {t : Text} (h : o' ∉ t.tail) :
    t.IsChain fun c d => c = o → d ≠ o' := by
  cases t with
  | nil => exact .nil
  | cons c t =>
    induction t generalizing c with
    | nil => exact .singleton c
    | cons d t ih =>
      have hd : d ≠ o' := fun hd => h (hd ▸ List.mem_cons_self)
      exact .cons_cons (fun _ => hd) (ih d fun hmem => h (List.mem_cons_of_mem d hmem))

namespace Piece

variable {p : Piece}

theorem notMem_tail_source (hp : p.IsSound) (hrank : 1 ≤ p.rank) : '[' ∉ p.source.tail := by
  rcases hrank.eq_or_lt with hlink | hother
  · cases p with
    | link label target =>
      obtain ⟨-, -, hlabel, htarget⟩ := hp
      have hlabel := hlabel.notMem (o := '[') (by decide)
      simp [source, reference, hlabel, htarget]
    | _ => simp [rank] at hlink
  · have hmark : '[' ≠ p.mark := by
      cases p <;> simp [rank, mark, backtick] at hother ⊢
    exact fun h => notMem_source hp hother (by decide) hmark (List.mem_of_mem_tail h)

theorem head_source (hp : p.IsSound) (hbefore : p.FitsAfter before) (hmark : '!' ∈ before) :
    '[' ∉ p.source.head? := by
  cases p with
  | image label target => simp [source]
  | link label target => exact absurd hmark hbefore
  | header hashes spaces =>
    obtain ⟨c, cs, rfl⟩ := List.exists_cons_of_length_pos (IsHeader.hashes_pos hp)
    simp [source, IsHeader.hash hp c List.mem_cons_self]
  | bold inner => simp [source, emphasized, List.replicate_succ]
  | italic inner => simp [source, emphasized, List.replicate_succ]
  | code inner => simp [source, backtick]

end Piece

theorem head_toList_plain {o : Char} (ho : o ∈ marks) (hv : ∀ c ∈ v.head?, c ∉ marks) :
    o ∉ v.head?.toList := by
  rw [Option.mem_toList]
  exact fun h => hv o h ho

/-- When images are removed the brackets of links are there still, but none of them follows an
exclamation mark. -/
theorem advances_image : Advances image 0 where
  piece p before v hp hbefore hafter hv := advance_piece rfl hp hbefore hafter fun hk => by
    have hform : p.form 0 = p.source := if_neg (by omega)
    rw [hform]
    refine removeFrom_of_isChain startsWithPair_image (isChain_of_notMem_tail ?_)
    rw [List.tail_append_of_ne_nil (Piece.source_ne_nil hp), List.mem_append, not_or]
    exact ⟨Piece.notMem_tail_source hp (Nat.one_le_iff_ne_zero.mpr hk),
      head_toList_plain (by decide) hv⟩
  gap gap before ds hgap hds := by
    refine removeFrom_of_isChain startsWithPair_image (List.isChain_append.mpr ⟨?_, ?_, ?_⟩)
    · exact isChain_of_notMem_tail fun h => hgap.notMem (by decide) (List.mem_of_mem_tail h)
    · cases (render (Piece.form 0) ds).head? <;> simp
    -- after an exclamation mark at the end of the text comes no link
    · rintro c hc d hd rfl rfl
      cases hds with
      | nil => simp [render] at hd
      | @cons _ q gap' ds hq hbefore =>
        have hsource : q.form 0 = q.source := if_neg (Nat.not_lt_zero _)
        rw [render, List.head?_append_of_ne_nil _ (hsource ▸ Piece.source_ne_nil hq), hsource] at hd
        exact Piece.head_source hq hbefore hc (by simpa using hd)

theorem isChain_emphasized_one {inner : Text} (h : IsEmphasis inner)
    (hv : ∀ c ∈ v.head?, c ∉ marks) :
    (emphasized 1 inner ++ v.head?.toList).IsChain fun c d => c = '*' → d ≠ '*' := by
  have hstar : '*' ∉ inner := h.plain.notMem (by decide)
  have hparts :
      emphasized 1 inner ++ v.head?.toList = ('*' :: inner) ++ ('*' :: v.head?.toList) := by
    simp [emphasized]
  rw [hparts, List.isChain_append]
  refine ⟨isChain_of_notMem_tail hstar,
    isChain_of_notMem_tail (head_toList_plain (by decide) hv), ?_⟩
  rintro c hc d - rfl
  obtain ⟨e, es, rfl⟩ := List.exists_cons_of_ne_nil h.ne_nil
  exact absurd (List.mem_of_mem_getLast? (List.getLast?_cons_cons ▸ hc)) hstar

theorem advances_bold : Advances bold 3 where
  piece p before v hp hbefore hafter hv := advance_piece rfl hp hbefore hafter fun hk => by
    by_cases hitalic : p.rank = 4
    · cases p with
      | italic inner =>
        exact removeFrom_of_isChain startsWithPair_bold (isChain_emphasized_one hp hv)
      | _ => simp [Piece.rank] at hitalic
    · refine removeFrom_of_notMem (startsWith_emphasis Nat.two_pos)
        (Piece.notMem_form hp (by decide) ?_)
      cases p <;> simp [Piece.rank, Piece.mark, backtick] at hk hitalic ⊢
  gap _ _ _ hgap _ :=
    removeFrom_of_notMem (startsWith_emphasis Nat.two_pos) (hgap.notMem (by decide))

/-- Plain text at first, then pieces with plain text after them. -/
structure Prose where
  first : Text
  rest : List (Piece × Text)

namespace Prose

def source (p : Prose) : Text :=
  p.first ++ render Piece.source p.rest

def readable (p : Prose) : Text :=
  p.first ++ render Piece.readable p.rest

structure IsSound (p : Prose) : Prop where
  first : IsPlain p.first
  rest : Follows p.first.getLast? p.rest

variable {p : Prose}

theorem removeAll_source (hp : p.IsSound) : removeAll kinds p.source = p.readable := by
  have hsource : Piece.source = Piece.form 0 := by
    funext p
    exact (if_neg (Nat.not_lt_zero _)).symm
  have hreadable : Piece.readable = Piece.form 6 := by
    funext p
    exact (if_pos (List.getElem?_eq_some_iff.mp p.kinds_rank).1).symm
  rw [source, readable, hsource, hreadable, kinds]
  simp only [removeAll_cons]
  rw [advances_image.remove_render hp.first hp.rest, advances_link.remove_render hp.first hp.rest,
    advances_header.remove_render hp.first hp.rest, advances_bold.remove_render hp.first hp.rest,
    advances_italic.remove_render hp.first hp.rest, advances_code.remove_render hp.first hp.rest]
  rfl

theorem isPlain_readable (hp : p.IsSound) : IsPlain p.readable := by
  have hrest : ∀ {before ds}, Follows before ds → IsPlain (render Piece.readable ds) := by
    intro before ds h
    induction h with
    | nil before => simp [IsPlain, render]
    | cons hp _ _ hgap _ _ ih =>
      rw [render]
      exact List.forall_mem_append.mpr
        ⟨Piece.isPlain_readable hp, List.forall_mem_append.mpr ⟨hgap, ih⟩⟩
  exact List.forall_mem_append.mpr ⟨hp.first, hrest hp.rest⟩

end Prose

theorem IsPlain.strip_collapseSpaces {t : Text} (ht : IsPlain t) :
    IsPlain (Text.strip (Text.collapseSpaces t)) := by
  intro c hc
  rcases Text.mem_collapseSpaces ((Text.trimBy_isInfix _ _).subset hc) with rfl | hc
  · decide
  · exact ht c hc

theorem isFree_of_isPlain {t : Text} (ht : IsPlain t) : IsFree t := by
  intro m hm
  simp only [kinds, List.mem_cons, List.not_mem_nil, or_false] at hm
  obtain rfl | rfl | rfl | rfl | rfl | rfl := hm
  · exact startsWithPair_image.not_occurs (ht.notMem (by decide))
  · exact startsWith_link.not_occurs (ht.notMem (by decide))
  · exact startsWith_header.not_occurs (ht.notMem (by decide))
  · exact (startsWith_emphasis Nat.two_pos).not_occurs (ht.notMem (by decide))
  · exact (startsWith_emphasis Nat.one_pos).not_occurs (ht.notMem (by decide))
  · exact startsWith_code.not_occurs (ht.notMem (by decide))

/-- Stripping prose leaves its readable text with the white space in order, and no kind of
markup is found in that. -/
theorem stripMarkup_source {p : Prose} (hp : p.IsSound) :
    stripMarkup p.source = Text.strip (Text.collapseSpaces p.readable) ∧
      IsFree (stripMarkup p.source) := by
  have hstrip : stripMarkup p.source = Text.strip (Text.collapseSpaces p.readable) := by
    rw [stripMarkup_eq, p.removeAll_source hp]
  refine ⟨hstrip, ?_⟩
  rw [hstrip]
  exact isFree_of_isPlain (p.isPlain_readable hp).strip_collapseSpaces

example :
    let p : Prose := ⟨"so ".toList,
      [(.bold "very".toList, " good ".toList), (.link "docs".toList "a.md".toList, [])]⟩
    p.IsSound ∧ p.source = "so **very** good [docs](a.md)".toList ∧
      p.readable = "so very good docs".toList := by
  have hbold : IsEmphasis "very".toList := by
    constructor <;> simp [IsPlain, marks, backtick, Text.isSpace]
  have hlink : Piece.IsSound (.link "docs".toList "a.md".toList) :=
    ⟨by constructor <;> simp, by simp, by simp [IsPlain, marks, backtick], by simp⟩
  have hspace : isBoundary (some ' ') = true := by decide +kernel
  refine ⟨⟨?_, .cons hbold hspace hspace ?_ ?_ (.cons hlink ?_ trivial ?_ ?_ (.nil none))⟩,
    rfl, rfl⟩
  all_goals simp [IsPlain, marks, backtick, Piece.FitsAfter]

end ArticleArchive.Markup
