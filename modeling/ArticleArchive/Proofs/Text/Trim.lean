import Mathlib.Data.List.TakeWhile
import ArticleArchive.Proofs.Text.Words

namespace ArticleArchive.Text

variable {p : Char → Bool} {t : Text}

theorem head_dropWhile (p : Char → Bool) (t : Text) : ∀ c ∈ (t.dropWhile p).head?, p c = false := by
  intro c hc
  have h := List.head?_dropWhile_not p t
  rw [Option.mem_def.mp hc] at h
  exact h

theorem dropWhile_of_head (h : ∀ c ∈ t.head?, p c = false) : t.dropWhile p = t := by
  cases t with
  | nil => rfl
  | cons c cs => simp [h c rfl]

theorem span_iff {run rest : Text} :
    t.takeWhile p = run ∧ t.dropWhile p = rest ↔
      t = run ++ rest ∧ (∀ c ∈ run, p c = true) ∧ ∀ c ∈ rest.head?, p c = false := by
  constructor
  · rintro ⟨rfl, rfl⟩
    exact ⟨List.takeWhile_append_dropWhile.symm, fun c hc => List.mem_takeWhile_imp hc,
      head_dropWhile p t⟩
  · rintro ⟨rfl, hrun, hrest⟩
    rw [List.takeWhile_append_of_pos hrun, List.dropWhile_append_of_pos hrun,
      dropWhile_of_head hrest]
    cases rest with
    | nil => simp
    | cons c rest => simp [hrest c rfl]

theorem exists_eq_append_trimBy (p : Char → Bool) (t : Text) :
    ∃ after, t = t.takeWhile p ++ (trimBy p t ++ after) ∧ ∀ c ∈ after, p c = true := by
  refine ⟨((t.dropWhile p).reverse.takeWhile p).reverse, ?_, fun c hc => ?_⟩
  · rw [trimBy, ← List.reverse_append, List.takeWhile_append_dropWhile, List.reverse_reverse,
      List.takeWhile_append_dropWhile]
  · exact List.mem_takeWhile_imp (List.mem_reverse.mp hc)

theorem last_trimBy (p : Char → Bool) (t : Text) :
    ∀ c ∈ (trimBy p t).getLast?, p c = false := by
  rw [trimBy, List.getLast?_reverse]
  exact head_dropWhile p _

theorem head_trimBy (p : Char → Bool) (t : Text) : ∀ c ∈ (trimBy p t).head?, p c = false := by
  intro c hc
  have hne : trimBy p t ≠ [] := fun h => by simp [h] at hc
  obtain ⟨after, hparts, -⟩ := exists_eq_append_trimBy p t
  have hdrop : t.dropWhile p = trimBy p t ++ after :=
    List.append_cancel_left (List.takeWhile_append_dropWhile.trans hparts)
  refine head_dropWhile p t c ?_
  rwa [hdrop, List.head?_append_of_ne_nil _ hne]

theorem trimBy_of_ends (hhead : ∀ c ∈ t.head?, p c = false)
    (hlast : ∀ c ∈ t.getLast?, p c = false) :
    trimBy p t = t := by
  rw [trimBy, dropWhile_of_head hhead, dropWhile_of_head (by rwa [List.head?_reverse]),
    List.reverse_reverse]

theorem trimBy_append {before middle after : Text} (hbefore : ∀ c ∈ before, p c = true)
    (hafter : ∀ c ∈ after, p c = true) (hne : middle ≠ [])
    (hhead : ∀ c ∈ middle.head?, p c = false) (hlast : ∀ c ∈ middle.getLast?, p c = false) :
    trimBy p (before ++ (middle ++ after)) = middle := by
  have hdrop : (before ++ (middle ++ after)).dropWhile p = middle ++ after := by
    rw [List.dropWhile_append_of_pos hbefore, dropWhile_of_head]
    rwa [List.head?_append_of_ne_nil _ hne]
  rw [trimBy, hdrop, List.reverse_append, List.dropWhile_append_of_pos (by simpa using hafter),
    dropWhile_of_head (by rwa [List.head?_reverse]), List.reverse_reverse]

theorem trimBy_eq_self (h : ∀ c ∈ t, p c = false) : trimBy p t = t :=
  trimBy_of_ends (fun c hc => h c (List.mem_of_mem_head? hc))
    fun c hc => h c (List.mem_of_mem_getLast? hc)

theorem mem_trimBy {c : Char} (hc : c ∈ t) (hp : p c = false) : c ∈ trimBy p t := by
  obtain ⟨after, hparts, hafter⟩ := exists_eq_append_trimBy p t
  rw [hparts, List.mem_append, List.mem_append] at hc
  rcases hc with hc | hc | hc
  · simp [List.mem_takeWhile_imp hc] at hp
  · exact hc
  · simp [hafter c hc] at hp

theorem trimBy_congr {q : Char → Bool} (h : ∀ c ∈ t, p c = q c) : trimBy p t = trimBy q t := by
  have hd : ∀ s : Text, (∀ c ∈ s, p c = q c) → s.dropWhile p = s.dropWhile q := by
    intro s hs
    induction s with
    | nil => rfl
    | cons a s ih =>
      rw [List.dropWhile_cons, List.dropWhile_cons, hs a List.mem_cons_self,
        ih fun c hc => hs c (List.mem_cons_of_mem a hc)]
  have hr : ∀ c ∈ (t.dropWhile q).reverse, p c = q c := by
    intro c hc
    exact h c ((List.dropWhile_suffix q).subset (List.mem_reverse.mp hc))
  rw [trimBy, trimBy, hd t h, hd _ hr]

theorem strip_strip (t : Text) : strip (strip t) = strip t :=
  trimBy_of_ends (head_trimBy isBlank t) (last_trimBy isBlank t)

theorem trimBy_isInfix (p : Char → Bool) (t : Text) : trimBy p t <:+: t := by
  obtain ⟨after, hparts, -⟩ := exists_eq_append_trimBy p t
  exact ⟨t.takeWhile p, after, (List.append_assoc _ _ _).trans hparts.symm⟩

theorem length_strip_le (t : Text) : (strip t).length ≤ t.length :=
  (trimBy_isInfix isBlank t).length_le

theorem hasWord_of_strip_ne_nil (h : strip t ≠ []) : t.HasWord :=
  ⟨(strip t).head h, (trimBy_isInfix isBlank t).subset (List.head_mem h),
    head_trimBy isBlank t _ (List.head?_eq_some_head h)⟩

/-- A part of a text outlives trimming if and only if neither all of the text up to its first
character nor all from its last one on is of the class that is trimmed. -/
theorem part_kept_iff {i j : Nat} (hij : i < j) (hj : j ≤ t.length) :
    ((t.takeWhile p).length ≤ i ∧ j ≤ (t.takeWhile p).length + (trimBy p t).length) ↔
      (∃ c ∈ t.take (i + 1), p c = false) ∧ ∃ c ∈ t.drop (j - 1), p c = false := by
  obtain ⟨after, hparts, hafter⟩ := exists_eq_append_trimBy p t
  have hbefore : ∀ c ∈ t.takeWhile p, p c = true := fun c hc => List.mem_takeWhile_imp hc
  have hhead := head_trimBy p t
  have hlast := last_trimBy p t
  -- the text in three parts: what is trimmed before, what is kept, what is trimmed after
  generalize t.takeWhile p = before at *
  generalize trimBy p t = middle at *
  subst hparts
  constructor
  · rintro ⟨hi, hjstop⟩
    have hne : middle ≠ [] := by
      rintro rfl
      simp at hjstop
      omega
    refine ⟨⟨middle.head hne, ?_, hhead _ (List.head?_eq_some_head hne)⟩,
      ⟨middle.getLast hne, ?_, hlast _ (List.getLast?_eq_some_getLast hne)⟩⟩
    · rw [List.take_append, List.take_append]
      refine List.mem_append_right _ (List.mem_append_left _ ?_)
      obtain ⟨c, cs, rfl⟩ := List.exists_cons_of_ne_nil hne
      obtain ⟨k, hk⟩ := Nat.exists_eq_add_of_lt (show 0 < i + 1 - before.length by omega)
      simp [hk]
    · rw [List.drop_append, List.drop_append]
      refine List.mem_append_right _ (List.mem_append_left _ ?_)
      rw [← List.getLast_drop (l := middle) (i := j - 1 - before.length)]
      · exact List.getLast_mem _
      · rw [← List.length_pos_iff, List.length_drop]
        omega
  · rintro ⟨⟨c, hc, hcp⟩, d, hd, hdp⟩
    constructor
    · by_contra hi
      rw [List.take_append_of_le_length (by omega)] at hc
      simp [hbefore c (List.mem_of_mem_take hc)] at hcp
    · by_contra hjstop
      rw [← List.append_assoc, List.drop_append, List.drop_of_length_le (by simp; omega),
        List.nil_append] at hd
      simp [hafter d (List.mem_of_mem_drop hd)] at hdp

theorem intercalate_space_cons {w : Text} {ws : List Text} (h : ws ≠ []) :
    [' '].intercalate (w :: ws) = w ++ ' ' :: [' '].intercalate ws := by
  obtain ⟨v, vs, rfl⟩ := List.exists_cons_of_ne_nil h
  simp [List.intercalate]

theorem intercalate_consWord (c : Char) (ws : List Text) :
    [' '].intercalate (consWord c ws) = c :: [' '].intercalate ws := by
  cases ws with
  | nil => rfl
  | cons w ws => cases ws <;> simp [consWord, List.intercalate]

theorem singleSpaced_eq_dropWhile {t : Text} (hlast : ∀ c ∈ t.getLast?, isBlank c = false)
    (hspaces : ∀ c ∈ t, isBlank c = true → c = ' ')
    (hapart : t.IsChain fun c d => isBlank c = false ∨ isBlank d = false) :
    singleSpaced t = t.dropWhile isBlank := by
  unfold singleSpaced
  fun_induction words t with
  | case1 => rfl
  | case2 c cs hc ih =>
    rw [List.dropWhile_cons_of_pos hc]
    exact ih (fun d hd => hlast d (List.mem_getLast?_cons hd))
      (fun d hd => hspaces d (List.mem_cons_of_mem c hd)) hapart.tail
  -- the end of a word: what follows is the end of the text or a single space and a further word
  | case3 c cs hc hd ih =>
    rw [List.dropWhile_cons_of_neg hc]
    cases cs with
    | nil => rfl
    | cons d ds =>
      have hd' : isBlank d = true := by simpa using hd
      obtain rfl : d = ' ' := hspaces d (by simp) hd'
      have hrest : ∀ e ∈ (' ' :: ds).getLast?, isBlank e = false := fun e he =>
        hlast e (List.mem_getLast?_cons he)
      have hword : HasWord (' ' :: ds) :=
        ⟨_, List.getLast_mem (List.cons_ne_nil ' ' ds), hrest _ (List.getLast?_eq_some_getLast _)⟩
      have hhead : ∀ e ∈ ds.head?, isBlank e = false := fun e he =>
        ((List.isChain_cons.mp hapart.tail).1 e he).resolve_left (by simp [hd'])
      rw [intercalate_space_cons (words_ne_nil_iff.mpr hword),
        ih hrest (fun e he => hspaces e (List.mem_cons_of_mem c he)) hapart.tail,
        List.dropWhile_cons_of_pos hd', dropWhile_of_head hhead]
      rfl
  | case4 c cs hc hd ih =>
    have hhead : ∀ d ∈ cs.head?, isBlank d = false := by
      intro d hdmem
      simpa [Option.mem_def.mp hdmem] using hd
    rw [List.dropWhile_cons_of_neg hc, intercalate_consWord,
      ih (fun d hd => hlast d (List.mem_getLast?_cons hd))
        (fun d hd => hspaces d (List.mem_cons_of_mem c hd)) hapart.tail, dropWhile_of_head hhead]

theorem IsTidy.singleSpaced_eq {t : Text} (h : t.IsTidy) : singleSpaced t = t := by
  rw [singleSpaced_eq_dropWhile h.last h.spaces h.apart, dropWhile_of_head h.head]

theorem singleSpaced_singleSpaced (t : Text) : singleSpaced (singleSpaced t) = singleSpaced t := by
  by_cases h : singleSpaced t = []
  · rw [h]
    rfl
  · exact (isTidy_singleSpaced h).singleSpaced_eq

end ArticleArchive.Text
