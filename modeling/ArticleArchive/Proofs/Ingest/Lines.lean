import ArticleArchive.Ingest.Source
import ArticleArchive.Proofs.Json.Extent
import ArticleArchive.Proofs.Json.LongNumerals
import ArticleArchive.Proofs.Text.Numerals
import ArticleArchive.Proofs.Text.Trim

namespace ArticleArchive

namespace Text

theorem decodeFrom_of_ascii {t : Text} (h : ∀ c ∈ t, c.toNat < 0x80) (index code low high : Nat) :
    decodeFrom index code ⟨0, low, high⟩ (t.map Char.toNat) = ⟨t, none⟩ := by
  induction t generalizing index code low high with
  | nil => rfl
  | cons c t ih =>
    obtain ⟨hc, ht⟩ := List.forall_mem_cons.mp h
    have hfirst : firstByte? c.toNat = some (c.toNat, ⟨0, 0, 0⟩) := if_pos hc
    simp [decodeFrom, hfirst, ih ht]

theorem decodeUtf8_of_ascii {t : Text} (h : ∀ c ∈ t, c.toNat < 0x80) :
    decodeUtf8 (t.map Char.toNat) = ⟨t, none⟩ :=
  decodeFrom_of_ascii h 0 0 0 0

end Text

namespace SourceItem

def row? : SourceItem → Option (List (Text × Json))
  | row fields => some fields
  | note _ => none

end SourceItem

namespace Source

/-- The reader cannot go on after the line: it gives up at a numeral in it. -/
def BreaksOff (line : Text) : Prop :=
  Json.parse (Text.strip line) = .error .longNumeral

/-- The object that a line spells. -/
def objectOf? (line : Text) : Option (List (Text × Json)) :=
  match Json.parse (Text.strip line) with
  | .ok (.obj fields) => some fields
  | _ => none

/-- What the line of a number gives. -/
inductive LineGives (number : Nat) (line : Text) : List SourceItem → Prop
  | blank (h : Text.strip line = []) : LineGives number line []
  | object {fields : List (Text × Json)} (h : objectOf? line = some fields) :
      LineGives number line [.row fields]
  | other {message : Text} (hne : Text.strip line ≠ []) (hno : objectOf? line = none)
      (hnumber : Nat.toDigits 10 number <:+: message) :
      LineGives number line [.note (.warning message)]

/-- The items are what each of some lines gives, in their order, the first line having the given
number; so their rows are the objects of these lines. -/
structure Gives (number : Nat) (lines : List Text) (items : List SourceItem) : Prop where
  parts : ∃ parts, List.Forall₂ (fun l part => LineGives l.2 l.1 part) (lines.zipIdx number) parts ∧
    items = parts.flatten
  rows : items.filterMap SourceItem.row? = lines.filterMap objectOf?

theorem parse_nil : Json.parse [] = .error .malformed := by
  rw [Json.parse_eq, show Json.skipWhite [] = [] from rfl, Json.value?_nil]
  rfl

theorem BreaksOff.hasLongNumeral {line : Text} (h : BreaksOff line) : line.HasLongNumeral :=
  (Json.hasLongNumeral_of_parse h).mono (Text.trimBy_isInfix _ line)

theorem objectOf?_of_blank {line : Text} (h : Text.strip line = []) : objectOf? line = none := by
  rw [objectOf?, h, parse_nil]

theorem LineGives.rows {number : Nat} {line : Text} {items : List SourceItem}
    (h : LineGives number line items) :
    items.filterMap SourceItem.row? = (objectOf? line).toList := by
  cases h with
  | blank h => rw [objectOf?_of_blank h]; rfl
  | object h => rw [h]; rfl
  | other _ hno _ => rw [hno]; rfl

theorem ofLine_cases (number : Nat) (line : Text) :
    ¬ BreaksOff line ∧ (∃ items, ofLine number line = .ok items ∧ LineGives number line items) ∨
      BreaksOff line ∧ ofLine number line = .error .longNumeral := by
  unfold ofLine
  dsimp only
  split
  · rename_i hblank
    have hnil : Text.strip line = [] := by simpa using hblank
    exact .inl ⟨by simp [BreaksOff, hnil, parse_nil], [], rfl, .blank hnil⟩
  · rename_i hne
    have hne : Text.strip line ≠ [] := by simpa using hne
    split
    · rename_i fields hparse
      exact .inl ⟨by simp [BreaksOff, hparse], _, rfl, .object (by simp [objectOf?, hparse])⟩
    · rename_i v hno hparse
      refine .inl ⟨by simp [BreaksOff, hparse], _, rfl, .other hne ?_ (List.infix_append _ _ _)⟩
      cases v with
      | obj fields => exact absurd rfl (hno fields)
      | _ => simp [objectOf?, hparse]
    · rename_i hparse
      exact .inl ⟨by simp [BreaksOff, hparse], _, rfl,
        .other hne (by simp [objectOf?, hparse]) (List.suffix_append _ _).isInfix⟩
    · rename_i hparse
      exact .inr ⟨hparse, rfl⟩

theorem Gives.nil (number : Nat) : Gives number [] [] :=
  ⟨⟨[], .nil, rfl⟩, rfl⟩

theorem Gives.cons {number : Nat} {l : Text} {ls : List Text} {part items : List SourceItem}
    (hl : LineGives number l part) (h : Gives (number + 1) ls items) :
    Gives number (l :: ls) (part ++ items) := by
  obtain ⟨⟨parts, hparts, rfl⟩, hrows⟩ := h
  refine ⟨⟨part :: parts, .cons hl hparts, rfl⟩, ?_⟩
  rw [List.filterMap_append, hl.rows, hrows, List.filterMap_cons]
  cases objectOf? l <;> rfl

/-- Lines are read from the first one on, all of them or up to one that breaks the reading off. -/
theorem ofLines_gives (number : Nat) (ls : List Text) :
    ∃ read rest, ls = read ++ rest ∧ Gives number read (ofLines number ls).items ∧
      (∀ l ∈ read, ¬ BreaksOff l) ∧
      (rest = [] ∧ (ofLines number ls).error = none ∨
        ∃ l after, rest = l :: after ∧ BreaksOff l ∧
          (ofLines number ls).error = some .longNumeral) := by
  induction ls generalizing number with
  | nil => exact ⟨[], [], rfl, .nil number, by simp, .inl ⟨rfl, rfl⟩⟩
  | cons l ls ih =>
    unfold ofLines
    rcases ofLine_cases number l with ⟨hl, part, hpart, hgives⟩ | ⟨hl, herror⟩
    · obtain ⟨read, rest, rfl, hread, hall, hend⟩ := ih (number + 1)
      rw [hpart]
      exact ⟨l :: read, rest, rfl, hread.cons hgives, List.forall_mem_cons.mpr ⟨hl, hall⟩, hend⟩
    · rw [herror]
      exact ⟨[], l :: ls, rfl, .nil number, by simp, .inr ⟨l, ls, rfl, hl, rfl⟩⟩

theorem head_unixLines {t : Text} (h : t.head? ≠ some '[') : (unixLines t).head? ≠ some '[' := by
  fun_cases unixLines t <;> simp_all

theorem ofBytes_of_lines {bytes : List Nat} (hvalid : (Text.decodeUtf8 bytes).stuck = none)
    (hfirst : (Text.decodeUtf8 bytes).chars.head? ≠ some '[') :
    ofBytes bytes = ofLines 1 (lines (unixLines (Text.decodeUtf8 bytes).chars)) := by
  have hhead := head_unixLines hfirst
  rw [ofBytes, hvalid]
  dsimp only
  unfold ofText
  split
  · rename_i he
    rw [he] at hhead
    simp at hhead
  · rfl

theorem lines_append {l : Text} (h : '\n' ∉ l) (t : Text) :
    lines (l ++ '\n' :: t) = l :: lines t := by
  induction l with
  | nil => rfl
  | cons c l ih =>
    obtain ⟨hc, hl⟩ := not_or.mp (mt List.mem_cons.mpr h)
    rw [List.cons_append, lines, if_neg (Ne.symm hc), ih hl]

theorem unixLines_of_not_mem {t : Text} (h : '\r' ∉ t) : unixLines t = t := by
  fun_induction unixLines t with
  | case1 => rfl
  | case2 cs ih => simp at h
  | case3 cs _ ih => simp at h
  | case4 c cs _ hc ih => rw [ih fun hmem => h (List.mem_cons_of_mem c hmem)]

/-- What a file of lines gives. All of it is read if and only if no line breaks the reading off, and
a line does so only with a numeral that is too long. -/
theorem file_of_lines {bytes : List Nat} (hvalid : (Text.decodeUtf8 bytes).stuck = none)
    (hfirst : (Text.decodeUtf8 bytes).chars.head? ≠ some '[') :
    let ls := lines (unixLines (Text.decodeUtf8 bytes).chars)
    let s := ofBytes bytes
    (∃ read rest, ls = read ++ rest ∧ Gives 1 read s.items ∧ (∀ l ∈ read, ¬ BreaksOff l) ∧
      (rest = [] ∧ s.error = none ∨
        ∃ l after, rest = l :: after ∧ BreaksOff l ∧ s.error = some .longNumeral)) ∧
    (s.error = none ↔ ∀ l ∈ ls, ¬ BreaksOff l) ∧
    ∀ l, BreaksOff l → l.HasLongNumeral := by
  intro ls s
  have hs : s = ofLines 1 ls := ofBytes_of_lines hvalid hfirst
  obtain ⟨read, rest, hls, hgives, hall, hend⟩ := ofLines_gives 1 ls
  rw [← hs] at hgives hend
  refine ⟨⟨read, rest, hls, hgives, hall, hend⟩, ?_, fun _ => BreaksOff.hasLongNumeral⟩
  rw [hls]
  -- either nothing is left unread, or the first line that is left breaks the reading off
  rcases hend with ⟨rfl, hnone⟩ | ⟨l, after, rfl, hl, herror⟩
  · simpa [hnone] using hall
  · rw [herror]
    exact iff_of_false (by simp) fun h => h l (by simp) hl

theorem breaksOff_of_long {c : Char} {ds r : Text} (hc : c ≠ '0')
    (hdigits : ∀ d ∈ c :: ds, d.isDigit = true) (hlong : Text.maxDigits < (c :: ds).length)
    (hr : ∀ d ∈ r.head?, Json.EndsNumeral d)
    (hlast : ∀ d ∈ (c :: ds ++ r).getLast?, Text.isBlank d = false) :
    BreaksOff (c :: ds ++ r) := by
  have hhead : ∀ d ∈ (c :: ds ++ r).head?, Text.isBlank d = false := by
    simpa using Text.isBlank_of_isDigit (hdigits c List.mem_cons_self)
  rw [BreaksOff, Text.strip, Text.trimBy_of_ends hhead hlast]
  exact Json.parse_append_of_long hc hdigits hlong hr

/-- Nothing is read from a file whose first line starts with a numeral of one digit too many, though
the second line is an object. -/
theorem not_all_read_after_long_numeral :
    let long : Text := List.replicate (Text.maxDigits + 1) '1' ++ ['x']
    let object : Text := "\x7b\"id\": 2\x7d".toList
    let content := long ++ '\n' :: (object ++ ['\n'])
    let bytes := content.map Char.toNat
    (Text.decodeUtf8 bytes).stuck = none ∧ (Text.decodeUtf8 bytes).chars.head? ≠ some '[' ∧
      lines (unixLines (Text.decodeUtf8 bytes).chars) = [long, object] ∧
      objectOf? object = some [("id".toList, .int 2)] ∧
      (ofBytes bytes).items = [] ∧ (ofBytes bytes).error = some .longNumeral := by
  have hn : Text.maxDigits < Text.maxDigits + 1 := Nat.lt_succ_self _
  have hrest : ∀ c ∈ 'x' :: '\n' :: ("\x7b\"id\": 2\x7d".toList ++ ['\n']),
      c.toNat < 0x80 ∧ c ≠ '\r' := by simp
  have hobject : objectOf? "\x7b\"id\": 2\x7d".toList = some [("id".toList, .int 2)] := by
    have hnumber : Json.value? ['2', '\x7d'] = .ok (.int 2, ['\x7d']) :=
      Json.value?_plain (by decide) (by decide) (by decide)
    have hfields : Json.fields? "\"id\": 2\x7d".toList [] = .ok ([("id".toList, .int 2)], []) :=
      Json.fields?_last (s := " 2\x7d".toList) rfl rfl hnumber rfl
    have hparse : Json.parse (Text.strip "\x7b\"id\": 2\x7d".toList) =
        .ok (.obj [("id".toList, .int 2)]) :=
      Json.parse_of_value? (Json.value?_of_fields? hfields) rfl
    rw [objectOf?, hparse]
  have hobject' : '\n' ∉ "\x7b\"id\": 2\x7d".toList := by decide
  generalize Text.maxDigits + 1 = n at hn ⊢
  intro long object content bytes
  have hn' : n ≠ 0 := by omega
  have hlong : '\n' ∉ long := by simp [long]
  have hcontent : content = List.replicate n '1' ++ 'x' :: '\n' :: (object ++ ['\n']) := by
    simp [content, long]
  have hchars : ∀ c ∈ content, c.toNat < 0x80 ∧ c ≠ '\r' := by
    rw [hcontent]
    refine List.forall_mem_append.mpr ⟨fun c hc => ?_, hrest⟩
    obtain ⟨-, rfl⟩ := List.mem_replicate.mp hc
    decide
  have hdecoded : Text.decodeUtf8 bytes = ⟨content, none⟩ :=
    Text.decodeUtf8_of_ascii fun c hc => (hchars c hc).1
  have hstuck : (Text.decodeUtf8 bytes).stuck = none := by rw [hdecoded]
  have hfirst : (Text.decodeUtf8 bytes).chars.head? ≠ some '[' := by
    rw [hdecoded, hcontent, List.head?_append_of_ne_nil _ (by simpa using hn')]
    simp [List.head?_replicate, hn']
  have hlines : lines (unixLines (Text.decodeUtf8 bytes).chars) = [long, object] := by
    rw [hdecoded, unixLines_of_not_mem fun h => (hchars _ h).2 rfl, lines_append hlong,
      lines_append hobject']
    rfl
  obtain ⟨k, rfl⟩ : ∃ k, n = k + 1 := Nat.exists_eq_succ_of_ne_zero hn'
  have hbreak : BreaksOff long := by
    refine breaksOff_of_long (by decide) (fun c hc => ?_) (by simpa using hn) (fun d hd => ?_)
      fun d hd => ?_
    · rw [← List.replicate_succ] at hc
      obtain ⟨-, rfl⟩ := List.mem_replicate.mp hc
      rfl
    · obtain rfl : 'x' = d := by simpa using hd
      exact ⟨rfl, by decide, by decide, by decide⟩
    · rw [List.getLast?_append_of_ne_nil _ (List.cons_ne_nil _ _)] at hd
      obtain rfl : 'x' = d := by simpa using hd
      rfl
  obtain ⟨⟨read, rest, hls, ⟨⟨parts, hparts, hitems⟩, -⟩, hread, hend⟩, hiff, -⟩ :=
    file_of_lines hstuck hfirst
  rw [hlines] at hls hiff
  have hbroken : (ofBytes bytes).error ≠ none := fun h => hiff.mp h long (by simp) hbreak
  obtain ⟨l, after, -, -, herror⟩ := hend.resolve_left fun h => hbroken h.2
  -- the first line breaks the reading off, so that no line is read before it
  obtain rfl : read = [] := by
    cases read with
    | nil => rfl
    | cons m read =>
      obtain rfl : long = m := (List.cons.inj hls).1
      exact absurd hbreak (hread _ List.mem_cons_self)
  obtain rfl : parts = [] := by simpa using hparts
  exact ⟨hstuck, hfirst, hlines, hobject, hitems, herror⟩

end Source

end ArticleArchive
