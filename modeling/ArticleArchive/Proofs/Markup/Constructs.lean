import ArticleArchive.Proofs.Markup.Removal
import ArticleArchive.Proofs.Text.Trim

namespace ArticleArchive.Markup

variable {before : Option Char} {t kept : Text} {n : Nat}

/-- A label in brackets and a target in parentheses. -/
def reference (label target : Text) : Text :=
  '[' :: (label ++ ']' :: '(' :: (target ++ [')']))

/-- The label and the target end where they seem to, and there is a target. -/
structure IsReference (label target : Text) : Prop where
  label_closes : ']' ∉ label
  target_closes : ')' ∉ target
  target_ne_nil : target ≠ []

theorem until_iff {d : Char} {run rest : Text} :
    t.takeWhile (· ≠ d) = run ∧ t.dropWhile (· ≠ d) = d :: rest ↔
      t = run ++ d :: rest ∧ d ∉ run := by
  rw [Text.span_iff]
  simp only [List.head?_cons, Option.mem_some_iff, forall_eq', ne_eq, not_true_eq_false,
    decide_false, and_true, decide_eq_true_eq]
  exact and_congr_right fun _ => ⟨fun h hd => h d hd rfl, fun h c hc hcd => h (hcd ▸ hc)⟩

theorem dropWhile_ne_cases (d : Char) (t : Text) :
    t.dropWhile (· ≠ d) = [] ∨ ∃ rest, t.dropWhile (· ≠ d) = d :: rest := by
  cases h : t.dropWhile (· ≠ d) with
  | nil => exact .inl rfl
  | cons c rest =>
    have hc := Text.head_dropWhile (· ≠ d) t c (by rw [h]; rfl)
    obtain rfl : c = d := by simpa using hc
    exact .inr ⟨rest, rfl⟩

theorem targetLength?_eq_some_iff :
    targetLength? t = some n ↔ ∃ target rest, t = '(' :: (target ++ ')' :: rest) ∧
      ')' ∉ target ∧ target ≠ [] ∧ n = target.length + 2 := by
  constructor
  · intro h
    unfold targetLength? at h
    split at h
    · rename_i cs
      dsimp only at h
      split at h
      · simp at h
      · rename_i hne
        rcases dropWhile_ne_cases ')' cs with hnil | ⟨rest, hrest⟩
        · rw [hnil] at h
          simp at h
        · rw [hrest] at h
          obtain ⟨hparts, hmem⟩ := until_iff.mp ⟨rfl, hrest⟩
          refine ⟨_, rest, congrArg _ hparts, hmem, by simpa using hne, ?_⟩
          simpa using h.symm
    · simp at h
  · rintro ⟨target, rest, rfl, hmem, hne, rfl⟩
    obtain ⟨htake, hdrop⟩ := (until_iff (t := target ++ ')' :: rest)).mpr ⟨rfl, hmem⟩
    simp only [targetLength?, htake, hdrop]
    rw [if_neg (by simpa using hne)]

theorem readReference?_eq_some_iff {label : Text} :
    readReference? t = some (label, n) ↔ ∃ target rest, '[' :: t = reference label target ++ rest ∧
      IsReference label target ∧ n + 1 = (reference label target).length := by
  constructor
  · intro h
    unfold readReference? at h
    dsimp only at h
    rcases dropWhile_ne_cases ']' t with hnil | ⟨cs, hcs⟩
    · rw [hnil] at h
      simp at h
    · rw [hcs] at h
      obtain ⟨k, hk, hlabel⟩ := Option.map_eq_some_iff.mp h
      obtain ⟨target, rest, rfl, hmem, hne, rfl⟩ := targetLength?_eq_some_iff.mp hk
      obtain ⟨rfl, rfl⟩ := Prod.mk.inj hlabel
      obtain ⟨hparts, hclose⟩ := until_iff.mp ⟨rfl, hcs⟩
      refine ⟨target, rest, ?_, ⟨hclose, hmem, hne⟩, ?_⟩
      · rw [reference]
        conv_lhs => rw [hparts]
        simp
      · simp only [reference, List.length_cons, List.length_append, List.length_nil]
        omega
  · rintro ⟨target, rest, hparts, ⟨hclose, hmem, hne⟩, hn⟩
    have ht : t = label ++ ']' :: ('(' :: (target ++ ')' :: rest)) := by
      simpa [reference] using hparts
    obtain ⟨htake, hdrop⟩ := until_iff.mpr ⟨ht, hclose⟩
    have htarget := targetLength?_eq_some_iff.mpr ⟨target, rest, rfl, hmem, hne, rfl⟩
    simp only [readReference?, htake, hdrop, htarget, Option.map_some, Option.some.injEq,
      Prod.mk.injEq, true_and]
    simp only [reference, List.length_cons, List.length_append, List.length_nil] at hn
    omega

theorem image_eq_some_iff :
    image before t = some (n, kept) ↔ ∃ label target rest,
      t = '!' :: reference label target ++ rest ∧ IsReference label target ∧
        n = ('!' :: reference label target).length ∧ kept = [] := by
  constructor
  · intro h
    unfold image at h
    split at h
    · obtain ⟨⟨label, k⟩, hread, hkept⟩ := Option.map_eq_some_iff.mp h
      obtain ⟨target, rest, hparts, href, hk⟩ := readReference?_eq_some_iff.mp hread
      obtain ⟨rfl, rfl⟩ := Prod.mk.inj hkept
      refine ⟨label, target, rest, by rw [hparts]; rfl, href, ?_, rfl⟩
      rw [List.length_cons, ← hk]
    · simp at h
  · rintro ⟨label, target, rest, rfl, href, rfl, rfl⟩
    have hread := readReference?_eq_some_iff.mpr ⟨target, rest, rfl, href, rfl⟩
    exact congrArg (Option.map fun r => (r.2 + 2, [])) hread

theorem link_eq_some_iff :
    link before t = some (n, kept) ↔ ∃ target rest, t = reference kept target ++ rest ∧
      IsReference kept target ∧ kept ≠ [] ∧ n = (reference kept target).length := by
  constructor
  · intro h
    unfold link at h
    split at h
    · split at h
      · rename_i label k hread
        split at h
        · simp at h
        · rename_i hne
          obtain ⟨rfl, rfl⟩ := Prod.mk.inj (Option.some.inj h)
          obtain ⟨target, rest, hparts, href, hk⟩ := readReference?_eq_some_iff.mp hread
          exact ⟨target, rest, hparts, href, by simpa using hne, hk⟩
      · simp at h
    · simp at h
  · rintro ⟨target, rest, rfl, href, hne, rfl⟩
    have hread :
        readReference? (kept ++ ']' :: '(' :: (target ++ [')']) ++ rest) = some (kept, _) :=
      readReference?_eq_some_iff.mpr ⟨target, rest, rfl, href, rfl⟩
    simp only [reference, List.cons_append, link]
    rw [hread]
    simp [hne]

theorem drop_length_takeWhile (p : Char → Bool) (t : Text) :
    t.drop (t.takeWhile p).length = t.dropWhile p := by
  have h : (t.takeWhile p ++ t.dropWhile p).drop (t.takeWhile p).length = t.dropWhile p :=
    List.drop_left
  rwa [List.takeWhile_append_dropWhile] at h

/-- The hashes of a header and the white space after them. -/
structure IsHeader (hashes spaces : Text) : Prop where
  hashes_pos : 1 ≤ hashes.length
  hashes_le : hashes.length ≤ 6
  hash : ∀ c ∈ hashes, c = '#'
  spaces_ne_nil : spaces ≠ []
  space : ∀ c ∈ spaces, Text.isSpace c = true

theorem header_eq_some_iff :
    header before t = some (n, kept) ↔ (before = none ∨ before = some '\n') ∧ kept = [] ∧
      ∃ hashes spaces rest, t = hashes ++ (spaces ++ rest) ∧ IsHeader hashes spaces ∧
        (∀ c ∈ rest.head?, Text.isSpace c = false) ∧ n = hashes.length + spaces.length := by
  constructor
  · intro h
    unfold header at h
    dsimp only at h
    split at h
    · rename_i hcond
      obtain ⟨hstart, hone, hsix, hspaces⟩ := hcond
      obtain ⟨rfl, rfl⟩ := Prod.mk.inj (Option.some.inj h)
      rw [drop_length_takeWhile] at hspaces ⊢
      refine ⟨hstart, rfl, t.takeWhile (· = '#'), _,
        (t.dropWhile (· = '#')).dropWhile Text.isSpace, ?_, ?_, ?_, rfl⟩
      · rw [List.takeWhile_append_dropWhile, List.takeWhile_append_dropWhile]
      · exact ⟨hone, hsix, fun c hc => by simpa using List.mem_takeWhile_imp hc,
          List.length_pos_iff.mp hspaces, fun c hc => List.mem_takeWhile_imp hc⟩
      · exact Text.head_dropWhile Text.isSpace _
    · simp at h
  · rintro ⟨hstart, rfl, hashes, spaces, rest, rfl, hheader, hrest, rfl⟩
    have hspaces := Text.span_iff.mpr ⟨rfl, hheader.space, hrest⟩
    -- the white space ends the run of hashes
    have hhead : ∀ c ∈ (spaces ++ rest).head?, decide (c = '#') = false := by
      intro c hc
      obtain ⟨d, ds, rfl⟩ := List.exists_cons_of_ne_nil hheader.spaces_ne_nil
      obtain rfl : d = c := by simpa using hc
      refine decide_eq_false ?_
      rintro rfl
      exact absurd (hheader.space '#' List.mem_cons_self) (by decide)
    have hhashes := Text.span_iff.mpr ⟨rfl, fun c hc => decide_eq_true (hheader.hash c hc), hhead⟩
    unfold header
    dsimp only
    rw [hhashes.1, List.drop_left, hspaces.1, if_pos]
    exact ⟨hstart, hheader.hashes_pos, hheader.hashes_le,
      List.length_pos_iff.mpr hheader.spaces_ne_nil⟩

/-- The end of emphasis whose last character so far is given. -/
def Closes (stars : Nat) (last : Char) (t : Text) : Prop :=
  isHugged last = true ∧ ∃ rest, t = List.replicate stars '*' ++ rest ∧ isBoundary rest.head? = true

theorem stars_isPrefixOf_iff {stars : Nat} :
    (List.replicate stars '*').isPrefixOf t = true ↔
      ∃ rest, t = List.replicate stars '*' ++ rest :=
  List.isPrefixOf_iff_prefix.trans (exists_congr fun _ => eq_comm)

theorem closes_iff {stars : Nat} {last : Char} :
    (isHugged last && startsClosing stars t) = true ↔ Closes stars last t := by
  simp only [Closes, startsClosing, Bool.and_eq_true]
  rw [stars_isPrefixOf_iff]
  refine and_congr_right fun _ => ⟨?_, ?_⟩
  · rintro ⟨⟨rest, rfl⟩, hrest⟩
    exact ⟨rest, rfl, by simpa using hrest⟩
  · rintro ⟨rest, rfl, hrest⟩
    exact ⟨⟨rest, rfl⟩, by simpa using hrest⟩

theorem readEmphasized?_cons_eq_some_iff {stars : Nat} {last c : Char} {cs inner : Text} :
    readEmphasized? stars last (c :: cs) = some inner ↔
      Closes stars last (c :: cs) ∧ inner = [] ∨
      ¬ Closes stars last (c :: cs) ∧ c ≠ '\n' ∧
        ∃ inner', readEmphasized? stars c cs = some inner' ∧ c :: inner' = inner := by
  rw [readEmphasized?]
  by_cases hclose : Closes stars last (c :: cs)
  · rw [if_pos (closes_iff.mpr hclose)]
    simp [hclose, eq_comm]
  · rw [if_neg (mt closes_iff.mp hclose)]
    by_cases hline : c = '\n'
    · subst hline
      simp [hclose]
    · rw [if_neg hline]
      simp [hclose, hline]

theorem readEmphasized?_eq_some_iff {stars : Nat} {last : Char} {inner : Text} :
    readEmphasized? stars last t = some inner ↔
      ∃ rest, t = inner ++ rest ∧ rest ≠ [] ∧ Closes stars (inner.getLastD last) rest ∧
        '\n' ∉ inner ∧ ∀ u v, inner = u ++ v → v ≠ [] →
          ¬ Closes stars (u.getLastD last) (v ++ rest) := by
  induction t generalizing last inner with
  | nil => simp [readEmphasized?]
  | cons c cs ih =>
    rw [readEmphasized?_cons_eq_some_iff]
    constructor
    · rintro (⟨hclose, rfl⟩ | ⟨hopen, hline, inner, hread, rfl⟩)
      · exact ⟨c :: cs, rfl, by simp, hclose, by simp, by simp⟩
      · obtain ⟨rest, rfl, hne, hclose, hlines, hnearest⟩ := ih.mp hread
        refine ⟨rest, rfl, hne, by rwa [List.getLastD_cons], ?_, fun u v huv hv => ?_⟩
        · simpa using ⟨Ne.symm hline, hlines⟩
        -- an end before the nearest one of the rest could only be right here
        · cases u with
          | nil =>
            obtain rfl : c :: inner = v := huv
            exact hopen
          | cons d u =>
            obtain ⟨rfl, rfl⟩ := List.cons.inj huv
            rw [List.getLastD_cons]
            exact hnearest u v rfl hv
    · rintro ⟨rest, hparts, hne, hclose, hlines, hnearest⟩
      cases inner with
      | nil =>
        obtain rfl : c :: cs = rest := hparts
        exact .inl ⟨hclose, rfl⟩
      | cons d inner =>
        obtain ⟨rfl, rfl⟩ : c = d ∧ cs = inner ++ rest := by simpa using hparts
        obtain ⟨hline, hlines⟩ := not_or.mp (mt List.mem_cons.mpr hlines)
        refine .inr ⟨hnearest [] _ rfl (by simp), Ne.symm hline, inner, ih.mpr ?_, rfl⟩
        rw [List.getLastD_cons] at hclose
        refine ⟨rest, rfl, hne, hclose, hlines, fun u v huv hv => ?_⟩
        rw [← List.getLastD_cons]
        exact hnearest (c :: u) v (congrArg (c :: ·) huv) hv

theorem emphasis_eq_some_iff {stars : Nat} :
    emphasis stars before t = some (n, kept) ↔ isBoundary before = true ∧
      ∃ c inner rest, t = List.replicate stars '*' ++ c :: (inner ++ rest) ∧ isHugged c = true ∧
        readEmphasized? stars c (inner ++ rest) = some inner ∧ kept = c :: inner ∧
        n = kept.length + 2 * stars := by
  constructor
  · intro h
    unfold emphasis at h
    dsimp only at h
    split at h
    · rename_i hopen
      rw [Bool.and_eq_true, stars_isPrefixOf_iff] at hopen
      obtain ⟨hbefore, rest, rfl⟩ := hopen
      rw [List.drop_left' List.length_replicate] at h
      split at h
      · rename_i c cs
        split at h
        · rename_i hc
          obtain ⟨inner, hread, hkept⟩ := Option.map_eq_some_iff.mp h
          obtain ⟨rfl, rfl⟩ := Prod.mk.inj hkept
          obtain ⟨rest, rfl, -⟩ := readEmphasized?_eq_some_iff.mp hread
          exact ⟨hbefore, c, inner, rest, rfl, hc, hread, rfl, rfl⟩
        · simp at h
      · simp at h
    · simp at h
  · rintro ⟨hbefore, c, inner, rest, rfl, hc, hread, rfl, rfl⟩
    have hopen : (isBoundary before && (List.replicate stars '*').isPrefixOf
        (List.replicate stars '*' ++ c :: (inner ++ rest))) = true := by
      rw [hbefore, Bool.true_and, stars_isPrefixOf_iff]
      exact ⟨_, rfl⟩
    unfold emphasis
    dsimp only
    rw [if_pos hopen, List.drop_left' List.length_replicate]
    dsimp only
    rw [if_pos hc, hread]
    rfl

theorem exists_hugged_of_emphasis {stars : Nat} (hstars : 0 < stars)
    (h : emphasis stars before t = some (n, kept)) :
    ∃ c d, isHugged c = true ∧ isHugged d = true ∧ ['*', c] <:+: t ∧ [d, '*'] <:+: t := by
  obtain ⟨-, c, inner, rest, rfl, hc, hread, -⟩ := emphasis_eq_some_iff.mp h
  obtain ⟨rest', hparts, -, ⟨hd, rest, rfl, -⟩, -⟩ := readEmphasized?_eq_some_iff.mp hread
  obtain rfl := List.append_cancel_left hparts
  obtain ⟨k, rfl⟩ := Nat.exists_eq_add_one_of_ne_zero hstars.ne'
  refine ⟨c, inner.getLastD c, hc, hd, ?_, ?_⟩
  · exact ⟨List.replicate k '*', inner ++ (List.replicate (k + 1) '*' ++ rest), by
      simp [List.replicate_succ']⟩
  · have hlast : c :: inner = (c :: inner).dropLast ++ [inner.getLastD c] := by
      rw [← List.getLast_eq_getLastD (List.cons_ne_nil c inner), List.dropLast_append_getLast]
    refine ⟨List.replicate (k + 1) '*' ++ (c :: inner).dropLast, List.replicate k '*' ++ rest, ?_⟩
    rw [← List.cons_append, hlast]
    simp [List.replicate_succ]

theorem code_eq_some_iff :
    code before t = some (n, kept) ↔ ∃ rest, t = backtick :: (kept ++ backtick :: rest) ∧
      backtick ∉ kept ∧ '\n' ∉ kept ∧ n = kept.length + 2 := by
  constructor
  · intro h
    unfold code at h
    split at h
    · rename_i c cs
      dsimp only at h
      split at h
      · rename_i hcond
        obtain ⟨rfl, hclose⟩ := hcond
        obtain ⟨rfl, rfl⟩ := Prod.mk.inj (Option.some.inj h)
        rw [drop_length_takeWhile] at hclose
        obtain ⟨rest, hrest⟩ := List.head?_eq_some_iff.mp hclose
        refine ⟨rest, ?_, ?_, ?_, rfl⟩
        · rw [← hrest, List.takeWhile_append_dropWhile]
        · exact fun h => by simpa using List.mem_takeWhile_imp h
        · exact fun h => by simpa using List.mem_takeWhile_imp h
      · simp at h
    · simp at h
  · rintro ⟨rest, rfl, hmem, hline, rfl⟩
    have hkept : ∀ d ∈ kept, decide (d ≠ backtick ∧ d ≠ '\n') = true := fun d hd =>
      decide_eq_true ⟨ne_of_mem_of_not_mem hd hmem, ne_of_mem_of_not_mem hd hline⟩
    have hinner := Text.span_iff.mpr ⟨rfl, hkept, fun c (hc : c ∈ (backtick :: rest).head?) => by
      obtain rfl : backtick = c := by simpa using hc
      simp⟩
    simp only [code]
    rw [hinner.1, List.drop_left, if_pos ⟨trivial, rfl⟩]

theorem startsWith_link : link.StartsWith '[' := by
  rintro before t ⟨n, kept⟩ h
  obtain ⟨target, rest, rfl, -⟩ := link_eq_some_iff.mp h
  rfl

theorem startsWith_header : header.StartsWith '#' := by
  rintro before t ⟨n, kept⟩ h
  obtain ⟨-, -, hashes, spaces, rest, rfl, hheader, -⟩ := header_eq_some_iff.mp h
  obtain ⟨c, cs, rfl⟩ := List.exists_cons_of_length_pos hheader.hashes_pos
  exact congrArg some (hheader.hash c List.mem_cons_self)

theorem startsWith_emphasis {stars : Nat} (hstars : 0 < stars) :
    (emphasis stars).StartsWith '*' := by
  rintro before t ⟨n, kept⟩ h
  obtain ⟨-, c, inner, rest, rfl, -⟩ := emphasis_eq_some_iff.mp h
  obtain ⟨k, rfl⟩ := Nat.exists_eq_add_one_of_ne_zero hstars.ne'
  rfl

theorem startsWith_code : code.StartsWith backtick := by
  rintro before t ⟨n, kept⟩ h
  obtain ⟨rest, rfl, -⟩ := code_eq_some_iff.mp h
  rfl

theorem startsWithPair_image : image.StartsWithPair '!' '[' := by
  rintro before t ⟨n, kept⟩ h
  obtain ⟨label, target, rest, rfl, -⟩ := image_eq_some_iff.mp h
  exact ⟨_, rfl⟩

theorem startsWithPair_bold : bold.StartsWithPair '*' '*' := by
  rintro before t ⟨n, kept⟩ h
  obtain ⟨-, c, inner, rest, rfl, -⟩ := emphasis_eq_some_iff.mp h
  exact ⟨_, rfl⟩

theorem deletes_image : Deletes image := by
  intro before t n kept h
  obtain ⟨label, target, rest, rfl, -, rfl, rfl⟩ := image_eq_some_iff.mp h
  exact ⟨_, rest, rfl, rfl, List.nil_sublist _, by simp⟩

theorem deletes_link : Deletes link := by
  intro before t n kept h
  obtain ⟨target, rest, rfl, -, -, rfl⟩ := link_eq_some_iff.mp h
  refine ⟨_, rest, rfl, rfl, ?_, ?_⟩
  · exact (List.sublist_append_left kept _).cons '['
  · simp only [reference, List.length_cons, List.length_append]
    omega

theorem deletes_header : Deletes header := by
  intro before t n kept h
  obtain ⟨-, rfl, hashes, spaces, rest, rfl, hheader, -, rfl⟩ := header_eq_some_iff.mp h
  refine ⟨hashes ++ spaces, rest, by simp, by simp, List.nil_sublist _, ?_⟩
  have := hheader.hashes_pos
  simp only [List.length_append, List.length_nil]
  omega

theorem deletes_emphasis {stars : Nat} (hstars : 0 < stars) : Deletes (emphasis stars) := by
  intro before t n kept h
  obtain ⟨-, c, inner, rest, rfl, -, hread, rfl, rfl⟩ := emphasis_eq_some_iff.mp h
  obtain ⟨rest', hparts, -, ⟨-, rest, rfl, -⟩, -⟩ := readEmphasized?_eq_some_iff.mp hread
  obtain rfl := List.append_cancel_left hparts
  refine ⟨List.replicate stars '*' ++ (c :: inner ++ List.replicate stars '*'), rest, by simp,
    ?_, ?_, ?_⟩
  · simp only [List.length_append, List.length_replicate]
    omega
  · exact (List.sublist_append_left _ _).trans (List.sublist_append_right _ _)
  · simp only [List.length_append, List.length_replicate]
    omega

theorem deletes_code : Deletes code := by
  intro before t n kept h
  obtain ⟨rest, rfl, -, -, rfl⟩ := code_eq_some_iff.mp h
  refine ⟨backtick :: (kept ++ [backtick]), rest, by simp, by simp, ?_, ?_⟩
  · exact (List.sublist_append_left kept _).cons backtick
  · simp only [List.length_cons, List.length_append]
    omega

def kinds : List Markup :=
  [image, link, header, bold, italic, code]

theorem deletes_of_mem_kinds {m : Markup} (hm : m ∈ kinds) : m.Deletes := by
  simp only [kinds, List.mem_cons, List.not_mem_nil, or_false] at hm
  obtain rfl | rfl | rfl | rfl | rfl | rfl := hm
  · exact deletes_image
  · exact deletes_link
  · exact deletes_header
  · exact deletes_emphasis Nat.two_pos
  · exact deletes_emphasis Nat.one_pos
  · exact deletes_code

end ArticleArchive.Markup
