import ArticleArchive.Ingest.Batch
import ArticleArchive.Proofs.Ingest.Lines
import ArticleArchive.Proofs.Json.Extent

namespace ArticleArchive

namespace Json

theorem isBlank_of_isWhite {c : Char} (h : isWhite c = true) : Text.isBlank c = true := by
  simp only [isWhite, Bool.or_eq_true, beq_iff_eq] at h
  rcases h with ((rfl | rfl) | rfl) | rfl <;> decide

variable {t : Text} {fields : List (Text × Json)}

theorem parse_strip_of_object (h : parse t = .ok (.obj fields)) :
    parse (Text.strip t) = .ok (.obj fields) := by
  obtain ⟨before, inner, after, rfl, hbefore, hafter, -, hspell⟩ := parse_eq_ok_iff.mp h
  obtain ⟨p, rfl⟩ := hspell.braces
  have hlast : ∀ c ∈ ('\x7b' :: (p ++ ['\x7d'])).getLast?, Text.isBlank c = false := by
    rw [← List.cons_append, List.getLast?_concat]
    rintro c ⟨⟩
    decide
  have hstrip : Text.strip (before ++ ('\x7b' :: (p ++ ['\x7d']) ++ after)) =
      '\x7b' :: (p ++ ['\x7d']) :=
    Text.trimBy_append (fun c hc => isBlank_of_isWhite (hbefore c hc))
      (fun c hc => isBlank_of_isWhite (hafter c hc)) (List.cons_ne_nil _ _) (by simp +decide) hlast
  rw [hstrip]
  exact parse_eq_ok_iff.mpr ⟨[], _, [], by simp, by simp, by simp, fun u => rfl, hspell⟩

theorem head_ne_bracket_of_object (h : parse t = .ok (.obj fields)) : t.head? ≠ some '[' := by
  intro hhead
  obtain ⟨t, rfl⟩ := List.head?_eq_some_iff.mp hhead
  rw [parse_eq] at h
  obtain ⟨⟨v, r⟩, hv, hafter⟩ := bind_eq_ok_iff.mp h
  split at hafter
  · obtain rfl : v = .obj fields := by simpa using hafter
    exact absurd (eq_brace_of_value? hv) (by decide)
  · simp at hafter

end Json

namespace Source

inductive LineEnd where
  | lf
  | crlf
  | cr

def LineEnd.text : LineEnd → Text
  | .lf => ['\n']
  | .crlf => ['\r', '\n']
  | .cr => ['\r']

/-- Lines with what ends each of them, and a last one that nothing ends. -/
structure LineFile where
  ended : List (Text × LineEnd)
  last : Text
  unbroken : ∀ l ∈ ended.map Prod.fst ++ [last], '\n' ∉ l ∧ '\r' ∉ l

namespace LineFile

def lines (f : LineFile) : List Text :=
  f.ended.map Prod.fst ++ [f.last]

def content (f : LineFile) : Text :=
  f.ended.flatMap (fun l => l.1 ++ l.2.text) ++ f.last

end LineFile

/-- The lines that are not blank. -/
def written (ls : List Text) : List Text :=
  ls.filter fun l => !(Text.strip l).isEmpty

theorem written_append (ls ms : List Text) : written (ls ++ ms) = written ls ++ written ms :=
  List.filter_append _ _

variable {l : Text}

theorem unixLines_append (h : '\r' ∉ l) (t : Text) : unixLines (l ++ t) = l ++ unixLines t := by
  induction l with
  | nil => rfl
  | cons c l ih =>
    obtain ⟨hc, hl⟩ := not_or.mp (mt List.mem_cons.mpr h)
    rw [List.cons_append, unixLines, ih hl, List.cons_append]
    · exact fun _ he _ => hc he.symm
    · exact fun he => hc he.symm

theorem lines_of_not_mem (hne : l ≠ []) (h : '\n' ∉ l) : lines l = [l] := by
  induction l with
  | nil => exact absurd rfl hne
  | cons c l ih =>
    obtain ⟨hc, hl⟩ := not_or.mp (mt List.mem_cons.mpr h)
    rw [lines, if_neg (Ne.symm hc)]
    by_cases hl' : l = []
    · subst hl'
      rfl
    · rw [ih hl' hl]

/-- A U+000D may be taken for one half of a line end with what follows it; then a blank line is
lost. -/
theorem exists_unixLines_end (e : LineEnd) (t : Text) :
    ∃ s, unixLines (e.text ++ t) = '\n' :: s ∧
      written (lines s) = written (lines (unixLines t)) := by
  cases e with
  | lf => exact ⟨_, rfl, rfl⟩
  | crlf => exact ⟨_, rfl, rfl⟩
  | cr =>
    by_cases h : ∃ s, t = '\n' :: s
    · obtain ⟨s, rfl⟩ := h
      exact ⟨unixLines s, rfl, rfl⟩
    · refine ⟨unixLines t, ?_, rfl⟩
      show unixLines ('\r' :: t) = _
      rw [unixLines]
      exact fun s hs => h ⟨s, hs⟩

theorem written_line (hn : '\n' ∉ l) (hr : '\r' ∉ l) (e : LineEnd) (t : Text) :
    written (lines (unixLines (l ++ (e.text ++ t)))) =
      written [l] ++ written (lines (unixLines t)) := by
  obtain ⟨s, hs, hwritten⟩ := exists_unixLines_end e t
  rw [unixLines_append hr, hs, lines_append hn, ← hwritten, ← written_append, List.singleton_append]

theorem written_content (f : LineFile) :
    written (lines (unixLines f.content)) = written f.lines := by
  obtain ⟨ended, last, unbroken⟩ := f
  unfold LineFile.content LineFile.lines
  dsimp only
  induction ended with
  | nil =>
    obtain ⟨hn, hr⟩ := unbroken last (by simp)
    rw [List.flatMap_nil, List.nil_append, unixLines_of_not_mem hr, List.map_nil, List.nil_append]
    by_cases hne : last = []
    · subst hne
      rfl
    · rw [lines_of_not_mem hne hn]
  | cons l ended ih =>
    obtain ⟨hl, hrest⟩ := List.forall_mem_cons.mp unbroken
    rw [List.flatMap_cons, List.append_assoc, List.append_assoc, written_line hl.1 hl.2, ih hrest]
    exact (written_append [l.1] _).symm

theorem head_ne_bracket_of_blank (h : Text.strip l = []) : l.head? ≠ some '[' := by
  intro hhead
  have hmem : '[' ∈ Text.strip l := Text.mem_trimBy (List.mem_of_mem_head? hhead) (by decide)
  simp [h] at hmem

theorem ofLine_of_blank (number : Nat) (h : Text.strip l = []) : ofLine number l = .ok [] := by
  simp [ofLine, h]

theorem ofLine_of_object {fields : List (Text × Json)} (number : Nat)
    (hne : Text.strip l ≠ []) (h : Json.parse l = .ok (.obj fields)) :
    ofLine number l = .ok [.row fields] := by
  simp [ofLine, hne, Json.parse_strip_of_object h]

variable {xs : List Text} {objects : List (List (Text × Json))}

theorem ofLines_of_objects {ls : List Text} (number : Nat)
    (h : List.Forall₂ (fun x fields => Json.parse x = .ok (.obj fields)) (written ls) objects) :
    ofLines number ls = ⟨objects.map .row, none⟩ := by
  induction ls generalizing number objects with
  | nil =>
    obtain rfl : objects = [] := by simpa [written] using h
    rfl
  | cons l ls ih =>
    rw [written, List.filter_cons, ← written] at h
    split at h
    · rename_i hne
      obtain ⟨fields, rest, hl, hls, rfl⟩ := List.forall₂_cons_left_iff.mp h
      rw [ofLines, ofLine_of_object number (by simpa using hne) hl, ih (number + 1) hls]
      rfl
    · rename_i hblank
      rw [ofLines, ofLine_of_blank number (by simpa using hblank), ih (number + 1) h]
      rfl

/-- The text of a list of what some texts spell. -/
def listText (xs : List Text) : Text :=
  '[' :: ([','].intercalate xs ++ [']'])

theorem ofList_listText
    (h : List.Forall₂ (fun x fields => Json.parse x = .ok (.obj fields)) xs objects) :
    ofList (listText xs) = ⟨objects.map .row, none⟩ := by
  have hvalues : List.Forall₂ (fun x v => Json.parse x = .ok v) xs (objects.map .obj) :=
    List.forall₂_map_right_iff.mpr h
  rw [ofList, listText, Json.parse_list hvalues]
  simp [ofItem]

theorem not_mem_listText {c : Char} (hc : c ∉ ['[', ',', ']']) (h : ∀ x ∈ xs, c ∉ x) :
    c ∉ listText xs := by
  have hjoined : c ∉ [','].intercalate xs := by
    induction xs with
    | nil => simp
    | cons x xs ih =>
      obtain ⟨hx, hxs⟩ := List.forall_mem_cons.mp h
      cases xs with
      | nil => simpa using hx
      | cons x' xs => simp_all
  simp_all [listText]

theorem head_content_ne_bracket (f : LineFile)
    (h : ∀ x ∈ written f.lines, ∃ fields, Json.parse x = .ok (.obj fields)) :
    f.content.head? ≠ some '[' := by
  have hlines : ∀ l ∈ f.lines, l.head? ≠ some '[' := by
    intro l hl
    by_cases hblank : Text.strip l = []
    · exact head_ne_bracket_of_blank hblank
    · obtain ⟨fields, hx⟩ := h l (by simp [written, hl, hblank])
      exact Json.head_ne_bracket_of_object hx
  obtain ⟨ended, last, unbroken⟩ := f
  unfold LineFile.content
  cases ended with
  | nil => exact hlines last (by simp [LineFile.lines])
  | cons l ended =>
    obtain ⟨l, e⟩ := l
    rw [List.flatMap_cons]
    cases l with
    | nil => cases e <;> simp [LineEnd.text]
    | cons c l => exact hlines (c :: l) (by simp [LineFile.lines])

theorem runSource_rows (tolerant : Bool) (b : Batch) (objects : List (List (Text × Json))) :
    Batch.runSource tolerant none b (objects.map .row) =
      Batch.run tolerant b (objects.map .obj) := by
  induction objects generalizing b with
  | nil => rfl
  | cons fields objects ih =>
    rw [List.map_cons, List.map_cons, Batch.runSource, Batch.run]
    split <;> simp [ih]

theorem ofBytes_of_decodeUtf8 {bytes : List Nat} {content : Text}
    (h : Text.decodeUtf8 bytes = ⟨content, none⟩) : ofBytes bytes = ofContent content := by
  rw [ofBytes, h]
  rfl

/-- Some texts each spell an object. A file that holds them as one list and a file in which they are
the lines that are not blank give the same rows, these objects in their order, and the same batch.
-/
theorem formats_agree {xs : List Text} {objects : List (List (Text × Json))}
    (hobjects : List.Forall₂ (fun x fields => Json.parse x = .ok (.obj fields)) xs objects)
    {f : LineFile} (hf : written f.lines = xs) {listBytes lineBytes : List Nat}
    (hlist : Text.decodeUtf8 listBytes = ⟨listText xs, none⟩)
    (hlines : Text.decodeUtf8 lineBytes = ⟨f.content, none⟩) :
    ofBytes listBytes = ⟨objects.map .row, none⟩ ∧ ofBytes lineBytes = ⟨objects.map .row, none⟩ ∧
      ∀ tolerant,
        Ingestion.ofSource tolerant (ofBytes listBytes) =
          Ingestion.ofRows tolerant (objects.map .obj) ∧
        Ingestion.ofSource tolerant (ofBytes lineBytes) =
          Ingestion.ofRows tolerant (objects.map .obj) := by
  subst hf
  have hlist' : ofBytes listBytes = ⟨objects.map .row, none⟩ := by
    have hreturn : '\r' ∉ listText (written f.lines) :=
      not_mem_listText (by decide) fun x hx => (f.unbroken x (List.mem_of_mem_filter hx)).2
    rw [ofBytes_of_decodeUtf8 hlist, ofContent, unixLines_of_not_mem hreturn]
    exact ofList_listText hobjects
  have hlines' : ofBytes lineBytes = ⟨objects.map .row, none⟩ := by
    have hobject : ∀ x ∈ written f.lines, ∃ fields, Json.parse x = .ok (.obj fields) :=
      ((List.forall₂_and_left _ _).mp (hobjects.imp fun x fields hx => ⟨⟨fields, hx⟩, hx⟩)).1
    rw [ofBytes_of_lines (by rw [hlines]) (by rw [hlines]; exact head_content_ne_bracket f hobject),
      hlines]
    exact ofLines_of_objects 1 (by rwa [written_content])
  refine ⟨hlist', hlines', fun tolerant => ?_⟩
  rw [hlist', hlines']
  exact ⟨runSource_rows tolerant {} objects, runSource_rows tolerant {} objects⟩

/-- Two objects, in a list and on lines that end differently, with a blank one between them. -/
theorem formats_agree_two :
    let first : Text := "\x7b\"id\": [1, 2]\x7d".toList
    let second : Text := " \x7b\"id\": 2, \"id\": 3\x7d".toList
    let listBytes := (listText [first, second]).map Char.toNat
    let lineBytes := (first ++ ['\r', '\n', ' ', '\r'] ++ second).map Char.toNat
    let objects := [[("id".toList, Json.arr [.int 1, .int 2])], [("id".toList, .int 3)]]
    Json.parse first = .ok (.obj [("id".toList, .arr [.int 1, .int 2])]) ∧
      Json.parse second = .ok (.obj [("id".toList, .int 3)]) ∧
      ofBytes listBytes = ⟨objects.map .row, none⟩ ∧ ofBytes lineBytes = ⟨objects.map .row, none⟩ ∧
      ∀ tolerant,
        Ingestion.ofSource tolerant (ofBytes listBytes) =
          Ingestion.ofRows tolerant (objects.map .obj) ∧
        Ingestion.ofSource tolerant (ofBytes lineBytes) =
          Ingestion.ofRows tolerant (objects.map .obj) := by
  intro first second listBytes lineBytes objects
  have hfirst : Json.parse first = .ok (.obj [("id".toList, .arr [.int 1, .int 2])]) := by
    have hone : Json.value? "1, 2]\x7d".toList = .ok (.int 1, ", 2]\x7d".toList) :=
      Json.value?_plain (by decide) (by decide) (by decide)
    have htwo : Json.value? "2]\x7d".toList = .ok (.int 2, "]\x7d".toList) :=
      Json.value?_plain (by decide) (by decide) (by decide)
    have hitems : Json.items? "1, 2]\x7d".toList = .ok ([.int 1, .int 2], ['\x7d']) :=
      Json.items?_more (s := " 2]\x7d".toList) hone rfl (Json.items?_last htwo rfl)
    have hlist : Json.value? "[1, 2]\x7d".toList = .ok (.arr [.int 1, .int 2], ['\x7d']) := by
      refine (Json.value?_list rfl (by decide)).trans ?_
      exact congrArg (Except.map _) hitems
    have hfields : Json.fields? "\"id\": [1, 2]\x7d".toList [] =
        .ok ([("id".toList, .arr [.int 1, .int 2])], []) :=
      Json.fields?_last (s := " [1, 2]\x7d".toList) rfl rfl hlist rfl
    exact Json.parse_of_value? (Json.value?_of_fields? hfields) rfl
  have hsecond : Json.parse second = .ok (.obj [("id".toList, .int 3)]) := by
    have htwo : Json.value? "2, \"id\": 3\x7d".toList = .ok (.int 2, ", \"id\": 3\x7d".toList) :=
      Json.value?_plain (by decide) (by decide) (by decide)
    have hthree : Json.value? "3\x7d".toList = .ok (.int 3, ['\x7d']) :=
      Json.value?_plain (by decide) (by decide) (by decide)
    have hlast : Json.fields? "\"id\": 3\x7d".toList [("id".toList, .int 2)] =
        .ok (Json.setField "id".toList (.int 3) [("id".toList, .int 2)], []) :=
      Json.fields?_last (s := " 3\x7d".toList) rfl rfl hthree rfl
    have hfields : Json.fields? "\"id\": 2, \"id\": 3\x7d".toList [] =
        .ok ([("id".toList, .int 3)], []) :=
      (Json.fields?_more (s := " 2, \"id\": 3\x7d".toList) (u := " \"id\": 3\x7d".toList)
        rfl rfl htwo rfl).trans hlast
    exact Json.parse_of_value? (Json.value?_of_fields? hfields) rfl
  let f : LineFile := ⟨[(first, .crlf), ([' '], .cr)], second, by decide⟩
  have hf : written f.lines = [first, second] := by decide
  have hcontent : f.content = first ++ ['\r', '\n', ' ', '\r'] ++ second := rfl
  have hascii : ∀ c ∈ f.content, c.toNat < 0x80 := by simp [hcontent, first, second]
  have hascii' : ∀ c ∈ listText [first, second], c.toNat < 0x80 := by
    simp [listText, first, second]
  refine ⟨hfirst, hsecond, formats_agree (.cons hfirst (.cons hsecond .nil)) hf
    (Text.decodeUtf8_of_ascii hascii') ?_⟩
  unfold lineBytes
  rw [← hcontent]
  exact Text.decodeUtf8_of_ascii hascii

end Source

end ArticleArchive
