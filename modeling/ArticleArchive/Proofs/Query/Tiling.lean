import ArticleArchive.Proofs.Query.Scan

namespace ArticleArchive.Lexeme

open Token (Spelled)

/-- `ls` are the tokens of a text that starts at index `n`: the text is made of blanks and of the
spellings of these tokens. -/
inductive Tiles : Nat → Text → List Lexeme → Prop
  | nil (n : Nat) : Tiles n [] []
  | blank {n : Nat} {c : Char} {t : Text} {ls : List Lexeme} (hc : Text.isBlank c = true)
      (h : Tiles (n + 1) t ls) : Tiles n (c :: t) ls
  | token {n : Nat} {k : Token} {s t : Text} {ls : List Lexeme} (hs : s ≠ []) (hk : Spelled k s)
      (h : Tiles (n + s.length) t ls) : Tiles n (s ++ t) (⟨k, n, n + s.length⟩ :: ls)

/-- The pieces of a query, from index `n` on, that lie before, between and after its tokens. -/
def gaps (raw : Text) (n : Nat) : List Lexeme → List Text
  | [] => [raw.drop n]
  | l :: ls => (raw.take l.start).drop n :: gaps raw l.stop ls

/-- Gaps and sources in turn; there is one gap more than there are sources. -/
def interleave : (gaps sources : List Text) → Text
  | g :: gs, s :: ss => g ++ (s ++ interleave gs ss)
  | g :: _, [] => g
  | [], _ => []

theorem scanFrom_tiles {n : Nat} {t : Text} {ls : List Lexeme} (h : scanFrom n t = .ok ls) :
    Tiles n t ls := by
  fun_induction scanFrom n t generalizing ls with
  | case1 n =>
    rw [← Except.ok.inj h]
    exact .nil n
  | case2 n c cs hc ih => exact .blank hc (ih h)
  | case3 n c cs hc e he => simp at h
  | case4 n c cs hc k rest hk stop =>
    rename_i ih
    cases hr : scanFrom stop rest with
    | error e => simp [hr, Except.map] at h
    | ok ls' =>
      obtain ⟨s, hs, -, hsp⟩ := scanToken_spelled hk
      have hlt := scanToken_length (by simpa using hc) hk
      have hstop : stop = n + s.length := by
        simp only [stop, hs, List.length_append]
        omega
      have hne : s ≠ [] := by
        rintro rfl
        rw [hs, List.nil_append] at hlt
        omega
      -- where the scan goes on is known from what is left, where the tile ends from its length
      simp only [hr, Except.map, Except.ok.injEq] at h
      rw [← h, hs, hstop]
      exact .token hne hsp (hstop ▸ ih hr)

theorem ofText_tiles {raw : Text} {ls : List Lexeme} (h : ofText raw = .ok ls) :
    Tiles 0 raw ls :=
  scanFrom_tiles (ofText_eq_ok_iff.mp h).2

namespace Tiles

variable {n : Nat} {t : Text} {ls : List Lexeme}

theorem bounds (h : Tiles n t ls) :
    ∀ l ∈ ls, n ≤ l.start ∧ l.start < l.stop ∧ l.stop ≤ n + t.length := by
  induction h with
  | nil n => simp
  | blank hc _ ih =>
    intro l hl
    have := ih l hl
    rw [List.length_cons]
    omega
  | @token n k s t ls hs hk _ ih =>
    have hpos := List.length_pos_iff.mpr hs
    intro l hl
    rw [List.length_append]
    rcases List.mem_cons.mp hl with rfl | hl
    · dsimp only
      omega
    · have := ih l hl
      omega

theorem pairwise (h : Tiles n t ls) :
    ls.Pairwise fun l m => l.start < m.start ∧ l.stop ≤ m.start := by
  induction h with
  | nil n => exact .nil
  | blank hc _ ih => exact ih
  | token hs hk h ih =>
    have hpos := List.length_pos_iff.mpr hs
    refine .cons (fun m hm => ?_) ih
    have := h.bounds m hm
    dsimp only
    omega

theorem isBlank_of_outside (h : Tiles n t ls) {i : Nat} {c : Char} (hi : t[i]? = some c)
    (ho : ∀ l ∈ ls, n + i < l.start ∨ l.stop ≤ n + i) : Text.isBlank c = true := by
  induction h generalizing i with
  | nil n => simp at hi
  | blank hc _ ih =>
    cases i with
    | zero =>
      rw [List.getElem?_cons_zero, Option.some.injEq] at hi
      rwa [← hi]
    | succ i =>
      refine ih (by simpa using hi) fun l hl => ?_
      have := ho l hl
      omega
  | @token n k s t ls hs hk _ ih =>
    have hout := ho _ List.mem_cons_self
    dsimp only at hout
    have hle : s.length ≤ i := by omega
    rw [List.getElem?_append_right hle] at hi
    refine ih hi fun l hl => ?_
    have := ho l (List.mem_cons_of_mem _ hl)
    omega

theorem spelled_source (h : Tiles n t ls) {raw p : Text} (hraw : raw = p ++ t)
    (hn : p.length = n) : ∀ l ∈ ls, Spelled l.token (l.source raw) := by
  induction h generalizing p with
  | nil n => simp
  | @blank n c t ls hc _ ih =>
    exact ih (p := p ++ [c]) (by simp [hraw]) (by simp [hn])
  | @token n k s t ls hs hk _ ih =>
    intro l hl
    rcases List.mem_cons.mp hl with rfl | hl
    · have : source raw ⟨k, n, n + s.length⟩ = s := by
        simp [source, hraw, ← hn, List.take_append]
      rwa [this]
    · exact ih (p := p ++ s) (by simp [hraw]) (by simp [hn]) l hl

theorem isBlank_of_mem_gaps (h : Tiles n t ls) {raw p : Text} (hraw : raw = p ++ t)
    (hn : p.length = n) {m : Nat} (hb : ∀ c ∈ p.drop m, Text.isBlank c = true) :
    ∀ g ∈ gaps raw m ls, ∀ c ∈ g, Text.isBlank c = true := by
  induction h generalizing p m with
  | nil n =>
    intro g hg
    obtain rfl := List.mem_singleton.mp hg
    simpa [hraw] using hb
  | @blank n c t ls hc _ ih =>
    refine ih (p := p ++ [c]) (by simp [hraw]) (by simp [hn]) fun d hd => ?_
    rw [List.drop_append] at hd
    rcases List.mem_append.mp hd with hd | hd
    · exact hb d hd
    · rwa [List.mem_singleton.mp (List.mem_of_mem_drop hd)]
  | @token n k s t ls hs hk _ ih =>
    intro g hg
    rcases List.mem_cons.mp hg with rfl | hg
    · simpa [hraw, ← hn] using hb
    · exact ih (p := p ++ s) (by simp [hraw]) (by simp [hn]) (by simp [← hn]) g hg

end Tiles

theorem source_of_inner? {raw : Text} {l m : Lexeme} (hl : l.start < l.stop)
    (hs : l.token.Spelled (l.source raw)) (hm : l.inner? = some m) :
    l.source raw = '-' :: m.source raw ∧ m.token.Spelled (m.source raw) := by
  obtain ⟨k, start, stop⟩ := l
  cases k with
  | exclude k =>
    obtain rfl := (Option.some.inj hm).symm
    generalize hsrc : source raw ⟨.exclude k, start, stop⟩ = s at hs
    cases hs with
    | @exclude _ s hk =>
      have hrest : source raw ⟨k, start + 1, stop⟩ = s := by
        have := congrArg (List.drop 1) hsrc
        simpa [source] using this
      rw [hrest]
      exact ⟨rfl, hk⟩
  | _ => simp [inner?] at hm

theorem interleave_gaps (raw : Text) {m : Nat} {ls : List Lexeme}
    (hb : ∀ l ∈ ls, m ≤ l.start ∧ l.start < l.stop)
    (hp : ls.Pairwise fun l m => l.start < m.start ∧ l.stop ≤ m.start) :
    interleave (gaps raw m ls) (ls.map (source raw)) = raw.drop m := by
  induction ls generalizing m with
  | nil => rfl
  | cons l ls ih =>
    obtain ⟨hm, hl⟩ := hb l List.mem_cons_self
    obtain ⟨hlater, hp⟩ := List.pairwise_cons.mp hp
    have hrest : interleave (gaps raw l.stop ls) (ls.map (source raw)) = raw.drop l.stop :=
      ih (fun k hk => ⟨(hlater k hk).2, (hb k (List.mem_cons_of_mem _ hk)).2⟩) hp
    rw [gaps, List.map_cons, interleave, hrest, source, drop_take_append_drop raw hl.le,
      drop_take_append_drop raw hm]

/-- The spans of the tokens of a query are not empty, lie inside the query, and follow one another
without overlaps; all outside them is blank, so that the query is its gaps and its tokens in turn;
and every span spells its token. -/
theorem ofText_lossless {raw : Text} {ls : List Lexeme} (h : ofText raw = .ok ls) :
    (∀ l ∈ ls, l.start < l.stop ∧ l.stop ≤ raw.length) ∧
    (ls.Pairwise fun l m => l.start < m.start ∧ l.stop ≤ m.start) ∧
    (∀ i c, raw[i]? = some c → (∀ l ∈ ls, i < l.start ∨ l.stop ≤ i) → Text.isBlank c = true) ∧
    (∀ g ∈ gaps raw 0 ls, ∀ c ∈ g, Text.isBlank c = true) ∧
    interleave (gaps raw 0 ls) (ls.map (source raw)) = raw ∧
    (∀ l ∈ ls, l.token.Spelled (l.source raw)) ∧
    (∀ l ∈ ls, ∀ m, l.inner? = some m →
      l.source raw = '-' :: m.source raw ∧ m.token.Spelled (m.source raw)) := by
  have ht := ofText_tiles h
  have hb := ht.bounds
  have hs := ht.spelled_source (p := []) rfl rfl
  refine ⟨fun l hl => ?_, ht.pairwise, fun i c hi ho => ?_, ?_, ?_, hs, fun l hl m hm => ?_⟩
  · have := hb l hl
    omega
  · refine ht.isBlank_of_outside hi fun l hl => ?_
    have := ho l hl
    omega
  · exact ht.isBlank_of_mem_gaps (p := []) rfl rfl (by simp)
  · exact interleave_gaps raw (fun l hl => ⟨(hb l hl).1, (hb l hl).2.1⟩) ht.pairwise
  · exact source_of_inner? (hb l hl).2.1 (hs l hl) hm

theorem ofText_lossless_exclusion :
    ofText "-views:>5 \"a\"".toList =
        .ok [⟨.exclude (.range "views".toList .gt ['5']), 0, 9⟩, ⟨.phrase ['a'], 10, 13⟩] ∧
      interleave [[], [' '], []] ["-views:>5".toList, "\"a\"".toList] =
        "-views:>5 \"a\"".toList := by
  have hphrase : scanFrom 10 "\"a\"".toList = .ok [⟨.phrase ['a'], 10, 13⟩] :=
    scanFrom_token_ok rfl rfl rfl (scanFrom_nil 13)
  have hblank : scanFrom 9 " \"a\"".toList = .ok [⟨.phrase ['a'], 10, 13⟩] :=
    (scanFrom_blank rfl).trans hphrase
  have hall : scanFrom 0 "-views:>5 \"a\"".toList =
      .ok [⟨.exclude (.range "views".toList .gt ['5']), 0, 9⟩, ⟨.phrase ['a'], 10, 13⟩] :=
    scanFrom_token_ok rfl rfl rfl hblank
  have hraw : Text.Balanced "-views:>5 \"a\"".toList := rfl
  have h := ofText_ok hraw hall
  obtain ⟨-, -, -, -, hrebuilt, -⟩ := ofText_lossless h
  exact ⟨h, hrebuilt⟩

end ArticleArchive.Lexeme
