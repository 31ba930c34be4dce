import ArticleArchive.Proofs.Highlight.Spans
import ArticleArchive.Proofs.Text.References

namespace ArticleArchive

/-- The characters of a text that a span points at. -/
def Span.cut (p : Span) (t : Text) : Text :=
  (t.take p.stop).drop p.start

def MarkStyle.html : MarkStyle := { escape := true }

/-- A part of marked text: a tag, or a character that belongs to none. -/
inductive MarkedPart where
  | opening
  | closing
  | char (c : Char)
  deriving DecidableEq

namespace MarkedPart

/-- The parts of marked text in HTML, none if an angle bracket belongs to no tag. -/
def read? : Text → Option (List MarkedPart)
  | [] => some []
  | '<' :: 'm' :: 'a' :: 'r' :: 'k' :: '>' :: t => (read? t).map (opening :: ·)
  | '<' :: '/' :: 'm' :: 'a' :: 'r' :: 'k' :: '>' :: t => (read? t).map (closing :: ·)
  | c :: t => if c = '<' ∨ c = '>' then none else (read? t).map (char c :: ·)

def written (s : MarkStyle) : List MarkedPart → Text
  | [] => []
  | opening :: ps => s.openTag ++ written s ps
  | closing :: ps => s.closeTag ++ written s ps
  | char c :: ps => c :: written s ps

/-- The characters that are left without the tags. -/
def characters : List MarkedPart → Text
  | [] => []
  | opening :: ps => characters ps
  | closing :: ps => characters ps
  | char c :: ps => c :: characters ps

/-- The tags come in pairs, one after the other, around the given texts, none of which is empty. -/
inductive Marks : List Text → List MarkedPart → Prop
  | nil : Marks [] []
  | char {ts : List Text} {ps : List MarkedPart} (c : Char) (h : Marks ts ps) :
      Marks ts (char c :: ps)
  | pair {t : Text} {ts : List Text} {ps : List MarkedPart} (hne : t ≠ []) (h : Marks ts ps) :
      Marks (t :: ts) (opening :: (t.map MarkedPart.char ++ closing :: ps))

variable {s : MarkStyle} {ps qs : List MarkedPart}

theorem written_append : written s (ps ++ qs) = written s ps ++ written s qs := by
  induction ps with
  | nil => rfl
  | cons p ps ih => cases p <;> simp [written, ih]

theorem characters_append : characters (ps ++ qs) = characters ps ++ characters qs := by
  induction ps with
  | nil => rfl
  | cons p ps ih => cases p <;> simp [characters, ih]

@[simp] theorem written_map_char (t : Text) : written s (t.map char) = t := by
  induction t with
  | nil => rfl
  | cons c t ih => simp [written, ih]

@[simp] theorem characters_map_char (t : Text) : characters (t.map char) = t := by
  induction t with
  | nil => rfl
  | cons c t ih => simp [characters, ih]

theorem Marks.chars {ts : List Text} (h : Marks ts ps) (t : Text) :
    Marks ts (t.map MarkedPart.char ++ ps) := by
  induction t with
  | nil => exact h
  | cons c t ih => exact .char c ih

/-- A text is read as the parts that it is written in, unless one of their characters is an angle
bracket. -/
theorem read?_eq_some_iff {t : Text} : read? t = some ps ↔
    written .html ps = t ∧ '<' ∉ characters ps ∧ '>' ∉ characters ps := by
  constructor
  · intro h
    fun_induction read? t generalizing ps with
    | case1 =>
      obtain rfl := Option.some.inj h
      simp [written, characters]
    | case2 t ih =>
      obtain ⟨qs, hqs, rfl⟩ := Option.map_eq_some_iff.mp h
      obtain ⟨rfl, hchars⟩ := ih hqs
      exact ⟨rfl, hchars⟩
    | case3 t ih =>
      obtain ⟨qs, hqs, rfl⟩ := Option.map_eq_some_iff.mp h
      obtain ⟨rfl, hchars⟩ := ih hqs
      exact ⟨rfl, hchars⟩
    | case4 => simp at h
    | case5 c t _ _ hc ih =>
      obtain ⟨qs, hqs, rfl⟩ := Option.map_eq_some_iff.mp h
      obtain ⟨rfl, hopen, hclose⟩ := ih hqs
      rw [not_or] at hc
      exact ⟨rfl, List.not_mem_cons_of_ne_of_not_mem (Ne.symm hc.1) hopen,
        List.not_mem_cons_of_ne_of_not_mem (Ne.symm hc.2) hclose⟩
  · rintro ⟨rfl, hopen, hclose⟩
    induction ps with
    | nil => rfl
    | cons p ps ih =>
      cases p with
      | opening => exact congrArg (Option.map (opening :: ·)) (ih hopen hclose)
      | closing => exact congrArg (Option.map (closing :: ·)) (ih hopen hclose)
      | char c =>
        simp only [characters, List.mem_cons, not_or] at hopen hclose
        have hc : ¬ (c = '<' ∨ c = '>') := by
          rintro (rfl | rfl)
          · exact hopen.1 rfl
          · exact hclose.1 rfl
        have hread := ih hopen.2 hclose.2
        simp only [written]
        rw [read?, if_neg hc, hread]
        · rfl
        · exact fun t h _ => hopen.1 h.symm
        · exact fun t h _ => hopen.1 h.symm

end MarkedPart

namespace MarkStyle

open MarkedPart (Marks written characters)

variable {s : MarkStyle}

theorem encode_append (s : MarkStyle) (t u : Text) :
    s.encode (t ++ u) = s.encode t ++ s.encode u := by
  unfold encode
  split
  · exact Text.htmlEscape_append t u
  · rfl

theorem encode_ne_nil {t : Text} (h : t ≠ []) : s.encode t ≠ [] := by
  unfold encode
  split
  · exact Text.htmlEscape_ne_nil h
  · exact h

/-- The parts of a text that is marked at the given spans, from the index `i` on. -/
def parts (s : MarkStyle) (t : Text) (i : Nat) : List Span → List MarkedPart
  | [] => (s.encode (t.drop i)).map .char
  | p :: ps =>
    (s.encode ((t.take p.start).drop i)).map .char ++ .opening ::
      ((s.encode (p.cut t)).map .char ++ .closing :: s.parts t p.stop ps)

def range (p : Span) : Int × Int :=
  (p.start, p.stop)

variable {t : Text} {ps : List Span}

theorem markFrom_cons (t : Text) (p : Span) (i : Nat) (rs : List (Int × Int)) :
    s.markFrom t i (range p :: rs) =
      s.encode ((t.take p.start).drop i) ++ (s.openTag ++ (s.encode (p.cut t) ++
        (s.closeTag ++ s.markFrom t p.stop rs))) := by
  rw [range, markFrom, slice_natCast, slice_natCast, Span.cut]
  simp only [List.append_assoc]

theorem written_parts (s : MarkStyle) (t : Text) (ps : List Span) (i : Nat) :
    written s (s.parts t i ps) = s.markFrom t i (ps.map range) := by
  induction ps generalizing i with
  | nil =>
    rw [parts, MarkedPart.written_map_char, List.map_nil, markFrom, slice_natCast, List.take_length]
  | cons p ps ih =>
    rw [parts, List.map_cons, markFrom_cons, MarkedPart.written_append,
      MarkedPart.written_map_char, written, MarkedPart.written_append, MarkedPart.written_map_char,
      written, ih]

theorem characters_parts (hapart : Span.Apart t.length ps) {i : Nat} (hi : ∀ p ∈ ps, i ≤ p.start) :
    characters (s.parts t i ps) = s.encode (t.drop i) := by
  induction ps generalizing i with
  | nil => exact MarkedPart.characters_map_char _
  | cons p ps ih =>
    obtain ⟨hfits, hbefore⟩ := hapart
    obtain ⟨hp, hps⟩ := List.forall_mem_cons.mp hfits
    obtain ⟨hnext, hrest⟩ := List.pairwise_cons.mp hbefore
    have hlater := ih ⟨hps, hrest⟩ fun q hq => Nat.le_of_lt (hnext q hq)
    rw [parts, MarkedPart.characters_append, MarkedPart.characters_map_char, characters,
      MarkedPart.characters_append, MarkedPart.characters_map_char, characters, hlater,
      ← encode_append, ← encode_append, Span.cut, drop_take_append_drop t (Nat.le_of_lt hp.1),
      drop_take_append_drop t (hi p List.mem_cons_self)]

theorem marks_parts (hfits : ∀ p ∈ ps, p.Fits t.length) (i : Nat) :
    Marks (ps.map fun p => s.encode (p.cut t)) (s.parts t i ps) := by
  induction ps generalizing i with
  | nil =>
    have h := Marks.nil.chars (s.encode (t.drop i))
    rwa [List.append_nil] at h
  | cons p ps ih =>
    obtain ⟨hp, hps⟩ := List.forall_mem_cons.mp hfits
    have hne : p.cut t ≠ [] := by
      rw [Span.cut, ← List.length_pos_iff, List.length_drop, List.length_take]
      have := hp.1
      have := hp.2
      omega
    exact (Marks.pair (encode_ne_nil hne) (ih hps p.stop)).chars _

/-- The places of the tags in a text that is marked at the given spans, where tags of so many
characters stand before them. -/
def tagSpans (s : MarkStyle) (before : Nat) : List Span → List Span
  | [] => []
  | p :: ps =>
    let opened := before + s.openTag.length
    let closed := opened + s.closeTag.length
    ⟨p.start + before, p.start + opened⟩ :: ⟨p.stop + opened, p.stop + closed⟩ ::
      s.tagSpans closed ps

/-- What is left of a text without what stands at the given spans, its first character being at the
index `i`. -/
def without (i : Nat) : List Span → Text → Text
  | [], t => t
  | p :: ps, t => t.take (p.start - i) ++ without p.stop ps (t.drop (p.stop - i))

theorem without_cons {p : Span} {i : Nat} {u v : Text} (hu : p.start = i + u.length)
    (hv : p.stop = p.start + v.length) (ps : List Span) (w : Text) :
    without i (p :: ps) (u ++ (v ++ w)) = u ++ without p.stop ps w := by
  have hstart : p.start - i = u.length := by omega
  have hstop : p.stop - i = (u ++ v).length := by
    rw [List.length_append]
    omega
  rw [without, hstart, hstop, List.take_left, ← List.append_assoc, List.drop_left]

theorem cut_append {p : Span} {u v : Text} (hu : p.start = u.length)
    (hv : p.stop = p.start + v.length) (w : Text) : p.cut (u ++ (v ++ w)) = v := by
  have hstop : p.stop = (u ++ v).length := by
    rw [List.length_append]
    omega
  rw [Span.cut, hstop, ← List.append_assoc, List.take_left, hu, List.drop_left]

theorem length_cut {p : Span} (hp : p.Fits t.length) : p.start + (p.cut t).length = p.stop := by
  obtain ⟨hlt, hstop⟩ := hp
  rw [Span.cut, List.length_drop, List.length_take]
  omega

theorem length_drop_take {i j : Nat} (hij : i ≤ j) (hj : j ≤ t.length) :
    i + ((t.take j).drop i).length = j := by
  rw [List.length_drop, List.length_take]
  omega

theorem markFrom_nil (s : MarkStyle) (t : Text) (i : Nat) :
    s.markFrom t i [] = s.encode (t.drop i) := by
  rw [markFrom, slice_natCast, List.take_length]

theorem encode_of_not_escape (hs : s.escape = false) (t : Text) : s.encode t = t := by
  simp [encode, hs]

theorem without_tagSpans (hs : s.escape = false) (hapart : Span.Apart t.length ps) (i before : Nat)
    (hi : ∀ p ∈ ps, i ≤ p.start) :
    without (i + before) (s.tagSpans before ps) (s.markFrom t i (ps.map range)) = t.drop i := by
  induction ps generalizing i before with
  | nil => rw [tagSpans, without, List.map_nil, markFrom_nil, encode_of_not_escape hs]
  | cons p ps ih =>
    obtain ⟨hfits, hbefore⟩ := hapart
    obtain ⟨hp, hps⟩ := List.forall_mem_cons.mp hfits
    obtain ⟨hnext, hrest⟩ := List.pairwise_cons.mp hbefore
    have hstart := hi p List.mem_cons_self
    have hgap := length_drop_take hstart (Nat.le_trans (Nat.le_of_lt hp.1) hp.2)
    have hcut := length_cut hp
    have hlater := ih ⟨hps, hrest⟩ p.stop (before + s.openTag.length + s.closeTag.length)
      fun q hq => Nat.le_of_lt (hnext q hq)
    rw [List.map_cons, markFrom_cons, encode_of_not_escape hs, encode_of_not_escape hs, tagSpans,
      without_cons (by dsimp only; omega) (by dsimp only; omega),
      without_cons (by dsimp only; omega) (by dsimp only; omega), hlater, Span.cut,
      drop_take_append_drop t (Nat.le_of_lt hp.1), drop_take_append_drop t hstart]

/-- At each of the places stands its tag, whatever the text `u` before the first one. -/
theorem cut_tagSpans (hs : s.escape = false) (hapart : Span.Apart t.length ps) (i before : Nat)
    (hi : ∀ p ∈ ps, i ≤ p.start) (u : Text) (hu : u.length = i + before) :
    (s.tagSpans before ps).map (·.cut (u ++ s.markFrom t i (ps.map range))) =
      ps.flatMap fun _ => [s.openTag, s.closeTag] := by
  induction ps generalizing i before u with
  | nil => rfl
  | cons p ps ih =>
    obtain ⟨hfits, hbefore⟩ := hapart
    obtain ⟨hp, hps⟩ := List.forall_mem_cons.mp hfits
    obtain ⟨hnext, hrest⟩ := List.pairwise_cons.mp hbefore
    have hgap := length_drop_take (hi p List.mem_cons_self) (Nat.le_trans (Nat.le_of_lt hp.1) hp.2)
    have hcut := length_cut hp
    rw [List.map_cons, markFrom_cons, encode_of_not_escape hs, encode_of_not_escape hs]
    generalize (t.take p.start).drop i = gap at hgap ⊢
    generalize p.cut t = inner at hcut ⊢
    -- the tags after this span: the text before them now ends with its closing tag
    have hlater := ih ⟨hps, hrest⟩ p.stop (before + s.openTag.length + s.closeTag.length)
      (fun q hq => Nat.le_of_lt (hnext q hq)) (u ++ gap ++ s.openTag ++ inner ++ s.closeTag)
      (by simp only [List.length_append]; omega)
    generalize s.markFrom t p.stop (ps.map range) = rest at hlater ⊢
    have hopen : Span.cut ⟨p.start + before, p.start + (before + s.openTag.length)⟩
        (u ++ (gap ++ (s.openTag ++ (inner ++ (s.closeTag ++ rest))))) = s.openTag := by
      rw [← List.append_assoc]
      exact cut_append (by simp only [List.length_append]; omega) (by dsimp only; omega) _
    have hclose : Span.cut ⟨p.stop + (before + s.openTag.length),
          p.stop + (before + s.openTag.length + s.closeTag.length)⟩
        (u ++ (gap ++ (s.openTag ++ (inner ++ (s.closeTag ++ rest))))) = s.closeTag := by
      rw [← List.append_assoc, ← List.append_assoc, ← List.append_assoc]
      exact cut_append (by simp only [List.length_append]; omega) (by dsimp only; omega) _
    simp only [List.append_assoc] at hlater
    rw [tagSpans, List.map_cons, List.map_cons, List.flatMap_cons, hopen, hclose, hlater]
    rfl

/-- `out` is the text `t` escaped for HTML, with tags around the texts `ts` of it, and `t` can be
read back from it. -/
def Escapes (names : Text.ReferenceNames) (t : Text) (ts : List Text) (out : Text) : Prop :=
  ∃ ps, MarkedPart.read? out = some ps ∧ Marks ts ps ∧ characters ps = Text.htmlEscape t ∧
    names.unescape (characters ps) = t

/-- The part of a text that an excerpt shows. -/
def excerpt (t : Text) (terms : List Text) (maxChars : Int) : Text :=
  let plain := stripMarkup t
  snippet plain ((highlightSpans plain terms).head?.map fun p => (p.start : Int)) maxChars

def markedTexts (t : Text) (terms : List Text) : List Text :=
  (highlightSpans t terms).map fun p => Text.htmlEscape (p.cut t)

theorem escapes_highlight (names : Text.ReferenceNames) (t : Text) (terms : List Text) :
    Escapes names t (markedTexts t terms) (html.highlight t terms) := by
  have hapart := highlightSpans_apart t terms
  have hchars : characters (html.parts t 0 (highlightSpans t terms)) = Text.htmlEscape t :=
    characters_parts hapart fun p _ => Nat.zero_le p.start
  have hwritten : written html (html.parts t 0 (highlightSpans t terms)) = html.highlight t terms :=
    written_parts html t _ 0
  have hmarks : Marks (markedTexts t terms) (html.parts t 0 (highlightSpans t terms)) :=
    marks_parts (s := html) hapart.fits 0
  refine ⟨_, MarkedPart.read?_eq_some_iff.mpr ⟨hwritten, ?_, ?_⟩, hmarks, hchars, ?_⟩
  · rw [hchars]
    exact fun h => (Text.ne_angle_of_mem_htmlEscape h).1 rfl
  · rw [hchars]
    exact fun h => (Text.ne_angle_of_mem_htmlEscape h).2 rfl
  · rw [hchars]
    exact names.unescape_htmlEscape t

/-- Text that is highlighted for HTML, and an excerpt in the same way, has no angle brackets but in
its tags, which come in pairs around the marked texts; without the tags it is the text, escaped, and
reading the references in it gives the text. Where nothing is escaped, the tags stand at places that
follow from those of the terms, and between these stands the text. -/
theorem highlight_loses_nothing (names : Text.ReferenceNames) (terms : List Text) :
    (∀ t, Escapes names t (markedTexts t terms) (html.highlight t terms)) ∧
    (∀ t maxChars, Escapes names (excerpt t terms maxChars)
      (markedTexts (excerpt t terms maxChars) terms) (html.highlightSnippet t terms maxChars)) ∧
    ∀ openTag closeTag t, let s : MarkStyle := { openTag, closeTag, escape := false }
      let spans := highlightSpans t terms
      (s.tagSpans 0 spans).map (·.cut (s.highlight t terms)) =
          (spans.flatMap fun _ => [openTag, closeTag]) ∧
        without 0 (s.tagSpans 0 spans) (s.highlight t terms) = t := by
  refine ⟨fun t => escapes_highlight names t terms,
    fun t maxChars => escapes_highlight names (excerpt t terms maxChars) terms,
    fun openTag closeTag t => ?_⟩
  have hapart := highlightSpans_apart t terms
  exact ⟨cut_tagSpans rfl hapart 0 0 (fun p _ => Nat.zero_le p.start) [] rfl,
    without_tagSpans rfl hapart 0 0 fun p _ => Nat.zero_le p.start⟩

end MarkStyle

end ArticleArchive
