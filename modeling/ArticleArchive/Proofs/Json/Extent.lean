import ArticleArchive.Proofs.Json.Parts

namespace ArticleArchive.Json

/-- The value at the front of a text and what is left of the text. -/
def value? (t : Text) : Except Unreadable (Json × Text) :=
  (readValue t).map fun p => (p.1, p.2.1)

def items? (t : Text) : Except Unreadable (List Json × Text) :=
  (readItems t).map fun p => (p.1, p.2.1)

def fields? (t : Text) (before : List (Text × Json)) :
    Except Unreadable (List (Text × Json) × Text) :=
  (readFields t before).map fun p => (p.1, p.2.1)

theorem value?_eq (t : Text) :
    value? t = match t with
      | '"' :: cs =>
        match readText cs with
        | none => .error .malformed
        | some (s, r) => .ok (.str s, r)
      | '[' :: cs =>
        match skipWhite cs with
        | ']' :: r => .ok (.arr [], r)
        | u => (items? u).map fun p => (.arr p.1, p.2)
      | '\x7b' :: cs =>
        match skipWhite cs with
        | '\x7d' :: r => .ok (.obj [], r)
        | u => (fields? u []).map fun p => (.obj p.1, p.2)
      | t => (readPlain t).bind fun p =>
        if p.2.length < t.length then .ok p else .error .malformed := by
  unfold value? readValue
  split
  · split <;> simp_all [Except.map]
  · split
    · simp_all [Except.map]
    · split <;> simp_all [Except.map, items?]
  · split
    · simp_all [Except.map]
    · split <;> simp_all [Except.map, fields?]
  · split
    · simp_all [Except.map, Except.bind]
    · rename_i v r hplain
      by_cases hlt : r.length < t.length <;>
        simp [hplain, hlt, Except.map, Except.bind, Rest.of?]

theorem items?_eq (t : Text) :
    items? t = (value? t).bind fun p =>
      match skipWhite p.2 with
      | ']' :: r => .ok ([p.1], r)
      | ',' :: s => (items? (skipWhite s)).map fun q => (p.1 :: q.1, q.2)
      | _ => .error .malformed := by
  unfold value?
  conv_lhs => unfold items? readItems
  split
  · simp_all [Except.map, Except.bind]
  · split
    · simp_all [Except.map, Except.bind]
    · split <;> simp_all [Except.map, Except.bind, items?]
    · simp_all [Except.map, Except.bind]

theorem fields?_eq (t : Text) (before : List (Text × Json)) :
    fields? t before = match t with
      | '"' :: cs =>
        match readText cs with
        | none => .error .malformed
        | some (name, q) =>
          match skipWhite q with
          | ':' :: s => (value? (skipWhite s)).bind fun p =>
            match skipWhite p.2 with
            | '\x7d' :: r => .ok (setField name p.1 before, r)
            | ',' :: u => fields? (skipWhite u) (setField name p.1 before)
            | _ => .error .malformed
          | _ => .error .malformed
      | _ => .error .malformed := by
  unfold value?
  conv_lhs => unfold fields? readFields
  split
  · split
    · simp_all [Except.map]
    · split
      · split
        · simp_all [Except.map, Except.bind]
        · split
          · simp_all [Except.map, Except.bind]
          · split <;> simp_all [Except.map, Except.bind, fields?]
          · simp_all [Except.map, Except.bind]
      · simp_all [Except.map]
  · simp_all [Except.map]

variable {t q r s : Text} {c : Char} {v : Json} {vs : List Json}
  {name : Text} {before fields : List (Text × Json)}

theorem value?_nil : value? [] = .error .malformed := by
  rw [value?_eq]
  rfl

theorem items?_nil : items? [] = .error .malformed := by
  rw [items?_eq, value?_nil]
  rfl

theorem fields?_nil : fields? [] before = .error .malformed := by
  rw [fields?_eq]

theorem value?_text (t : Text) :
    value? ('"' :: t) = match readText t with
      | none => .error .malformed
      | some (s, r) => .ok (.str s, r) :=
  value?_eq _

theorem value?_bracket (t : Text) :
    value? ('[' :: t) = match skipWhite t with
      | ']' :: r => .ok (.arr [], r)
      | u => (items? u).map fun p => (.arr p.1, p.2) :=
  value?_eq _

theorem value?_list (h : skipWhite t = c :: r) (hc : c ≠ ']') :
    value? ('[' :: t) = (items? (c :: r)).map fun p => (.arr p.1, p.2) := by
  rw [value?_bracket]
  simp only [h]
  split
  · rename_i he
    exact absurd (List.cons.inj he).1 hc
  · rfl

theorem value?_object (h : skipWhite t = c :: r) (hc : c ≠ '\x7d') :
    value? ('\x7b' :: t) = (fields? (c :: r) []).map fun p => (.obj p.1, p.2) := by
  rw [value?_eq]
  simp only [h]
  split
  · rename_i he
    exact absurd (List.cons.inj he).1 hc
  · rfl

theorem value?_of_fields? {fields : List (Text × Json)}
    (h : fields? ('"' :: t) [] = .ok (fields, r)) :
    value? ('\x7b' :: '"' :: t) = .ok (.obj fields, r) := by
  rw [value?_object rfl (by decide), h]
  rfl

theorem value?_empty_list (h : skipWhite t = ']' :: r) : value? ('[' :: t) = .ok (.arr [], r) := by
  rw [value?_bracket]
  simp only [h]

theorem value?_empty_object (h : skipWhite t = '\x7d' :: r) :
    value? ('\x7b' :: t) = .ok (.obj [], r) := by
  rw [value?_eq]
  simp only [h]

theorem items?_last (hv : value? t = .ok (v, q)) (hq : skipWhite q = ']' :: r) :
    items? t = .ok ([v], r) := by
  rw [items?_eq, hv]
  simp only [Except.bind, hq]

theorem items?_more (hv : value? t = .ok (v, q)) (hq : skipWhite q = ',' :: s)
    (hs : items? (skipWhite s) = .ok (vs, r)) : items? t = .ok (v :: vs, r) := by
  rw [items?_eq, hv]
  simp only [Except.bind, hq, hs, Except.map]

theorem fields?_last {w : Text} (hn : readText t = some (name, q)) (hq : skipWhite q = ':' :: s)
    (hv : value? (skipWhite s) = .ok (v, w)) (hw : skipWhite w = '\x7d' :: r) :
    fields? ('"' :: t) before = .ok (setField name v before, r) := by
  rw [fields?_eq]
  simp only [hn, hq, hv, Except.bind, hw]

theorem fields?_more {w u : Text} (hn : readText t = some (name, q)) (hq : skipWhite q = ':' :: s)
    (hv : value? (skipWhite s) = .ok (v, w)) (hw : skipWhite w = ',' :: u) :
    fields? ('"' :: t) before = fields? (skipWhite u) (setField name v before) := by
  rw [fields?_eq]
  simp only [hn, hq, hv, Except.bind, hw]

theorem exists_skipWhite {p : Text} (hp : p ≠ []) (h : skipWhite t = p ++ r) :
    ∃ w, t = w ++ (p ++ r) ∧ (∀ d ∈ w, isWhite d = true) ∧
      ∀ u, skipWhite (w ++ (p ++ u)) = p ++ u := by
  obtain ⟨c, p, rfl⟩ := List.exists_cons_of_ne_nil hp
  obtain ⟨ht, hw, hc⟩ := Text.span_iff.mp ⟨rfl, h⟩
  exact ⟨_, ht, hw, fun u => (Text.span_iff.mpr ⟨rfl, hw, by simpa using hc⟩).2⟩

theorem endsNumeral_of_isWhite (h : isWhite c = true) : EndsNumeral c := by
  simp only [isWhite, Bool.or_eq_true, beq_iff_eq] at h
  rcases h with ((rfl | rfl) | rfl) | rfl <;> exact ⟨rfl, by decide, by decide, by decide⟩

theorem endsNumerals_append {w : Text} (hw : ∀ d ∈ w, isWhite d = true)
    (hc : c ∈ [',', ']', '\x7d']) (u : Text) : EndsNumerals (w ++ c :: u) := by
  intro d hd
  rcases mem_head?_append hd with hd | hd
  · exact endsNumeral_of_isWhite (hw d (List.mem_of_mem_head? hd))
  · obtain rfl : c = d := by simpa using hd
    simp only [List.mem_cons, List.not_mem_nil, or_false] at hc
    rcases hc with rfl | rfl | rfl <;> exact ⟨rfl, by decide, by decide, by decide⟩

/-- The text spells the value wherever no numeral goes on behind. -/
def Spells (s : Text) (v : Json) : Prop :=
  ∀ u, EndsNumerals u → value? (s ++ u) = .ok (v, u)

/-- The values, objects and lists at the front of a text are read from a piece of it that spells
them wherever it stands; the piece of an object ends with its brace. -/
structure AllSpelled (t : Text) : Prop where
  value : ∀ {v r}, value? t = .ok (v, r) → ∃ s, t = s ++ r ∧ Spells s v
  items : ∀ {vs r}, items? t = .ok (vs, r) → ∃ s, t = s ++ r ∧ ∀ u, items? (s ++ u) = .ok (vs, u)
  fields : ∀ {before fields r}, fields? t before = .ok (fields, r) →
    ∃ s, t = s ++ '\x7d' :: r ∧ ∀ u, fields? (s ++ '\x7d' :: u) before = .ok (fields, u)

theorem ne_nil_of_items {p : Text} (h : ∀ u, items? (p ++ u) = .ok (vs, u)) : p ≠ [] := by
  rintro rfl
  have hnil := h []
  simp [items?_nil] at hnil

theorem Spells.ne_nil (h : Spells s v) : s ≠ [] := by
  rintro rfl
  have hnil := h [] (by simp [EndsNumerals])
  simp [value?_nil] at hnil

theorem exists_list (ih : ∀ u : Text, u.length ≤ t.length → AllSpelled u)
    (h : value? ('[' :: t) = .ok (v, r)) :
    ∃ s, t = s ++ r ∧ ∀ u, value? ('[' :: (s ++ u)) = .ok (v, u) := by
  cases hwhite : skipWhite t with
  | nil =>
    rw [value?_eq] at h
    simp [hwhite, items?_nil, Except.map] at h
  | cons c q =>
    by_cases hc : c = ']'
    · subst hc
      rw [value?_empty_list hwhite] at h
      obtain ⟨rfl, rfl⟩ : Json.arr [] = v ∧ q = r := by simpa using h
      obtain ⟨w, rfl, -, hskip⟩ := exists_skipWhite (List.cons_ne_nil ']' []) hwhite
      exact ⟨w ++ [']'], by simp, fun u => by simpa using value?_empty_list (hskip u)⟩
    · rw [value?_list hwhite hc] at h
      obtain ⟨⟨vs, r'⟩, hvs, he⟩ := map_eq_ok_iff.mp h
      obtain ⟨rfl, rfl⟩ := Prod.mk.inj he
      have hle : (c :: q).length ≤ t.length := hwhite ▸ length_skipWhite_le t
      obtain ⟨p, hp, hspell⟩ := (ih _ hle).items hvs
      have hne := ne_nil_of_items hspell
      obtain ⟨w, rfl, -, hskip⟩ := exists_skipWhite hne (hwhite.trans hp)
      obtain ⟨d, p, rfl⟩ := List.exists_cons_of_ne_nil hne
      obtain ⟨rfl, -⟩ := List.cons.inj hp
      refine ⟨w ++ (c :: p), by simp, fun u => ?_⟩
      rw [List.append_assoc, value?_list (hskip u) hc]
      exact map_eq_ok_iff.mpr ⟨_, hspell u, rfl⟩

theorem exists_object (ih : ∀ u : Text, u.length ≤ t.length → AllSpelled u)
    (h : value? ('\x7b' :: t) = .ok (v, r)) :
    ∃ s, t = s ++ '\x7d' :: r ∧ ∀ u, value? ('\x7b' :: (s ++ '\x7d' :: u)) = .ok (v, u) := by
  cases hwhite : skipWhite t with
  | nil =>
    rw [value?_eq] at h
    simp [hwhite, fields?_nil, Except.map] at h
  | cons c q =>
    by_cases hc : c = '\x7d'
    · subst hc
      rw [value?_empty_object hwhite] at h
      obtain ⟨rfl, rfl⟩ : Json.obj [] = v ∧ q = r := by simpa using h
      obtain ⟨w, rfl, -, hskip⟩ := exists_skipWhite (List.cons_ne_nil '\x7d' []) hwhite
      exact ⟨w, rfl, fun u => value?_empty_object (hskip u)⟩
    · rw [value?_object hwhite hc] at h
      obtain ⟨⟨fs, r'⟩, hfs, he⟩ := map_eq_ok_iff.mp h
      obtain ⟨rfl, rfl⟩ := Prod.mk.inj he
      have hle : (c :: q).length ≤ t.length := hwhite ▸ length_skipWhite_le t
      obtain ⟨p, hp, hspell⟩ := (ih _ hle).fields hfs
      cases p with
      | nil => exact absurd (List.cons.inj hp).1 hc
      | cons d p =>
        obtain ⟨rfl, -⟩ := List.cons.inj hp
        obtain ⟨w, rfl, -, hskip⟩ := exists_skipWhite (List.cons_ne_nil c p) (hwhite.trans hp)
        refine ⟨w ++ (c :: p), by simp, fun u => ?_⟩
        rw [List.append_assoc, value?_object (hskip _) hc]
        exact map_eq_ok_iff.mpr ⟨_, hspell u, rfl⟩

theorem exists_items (hvalue : ∀ {v r}, value? t = .ok (v, r) → ∃ s, t = s ++ r ∧ Spells s v)
    (ih : ∀ u : Text, u.length < t.length → AllSpelled u) (h : items? t = .ok (vs, r)) :
    ∃ s, t = s ++ r ∧ ∀ u, items? (s ++ u) = .ok (vs, u) := by
  rw [items?_eq] at h
  obtain ⟨⟨v, q⟩, hv, hafter⟩ := bind_eq_ok_iff.mp h
  obtain ⟨s, rfl, hs⟩ := hvalue hv
  split at hafter
  · rename_i r' hq
    obtain ⟨rfl, rfl⟩ : [v] = vs ∧ r' = r := by simpa using hafter
    obtain ⟨w, rfl, hw, hskip⟩ := exists_skipWhite (List.cons_ne_nil ']' []) hq
    refine ⟨s ++ (w ++ [']']), by simp, fun u => ?_⟩
    rw [List.append_assoc, List.append_assoc]
    exact items?_last (hs _ (endsNumerals_append hw (by simp) u)) (hskip u)
  · rename_i q' hq
    obtain ⟨⟨vs', r'⟩, hvs, he⟩ := map_eq_ok_iff.mp hafter
    obtain ⟨rfl, rfl⟩ := Prod.mk.inj he
    obtain ⟨w, rfl, hw, hskip⟩ := exists_skipWhite (List.cons_ne_nil ',' []) hq
    -- the values behind the comma are a shorter text
    have hlt : (skipWhite q').length < (s ++ (w ++ ([','] ++ q'))).length := by
      have := length_skipWhite_le q'
      simp only [List.length_append, List.length_cons]
      omega
    obtain ⟨p, hp, hspell⟩ := (ih _ hlt).items hvs
    obtain ⟨w', rfl, -, hskip'⟩ := exists_skipWhite (ne_nil_of_items hspell) hp
    refine ⟨s ++ (w ++ ([','] ++ (w' ++ p))), by simp, fun u => ?_⟩
    have hrest : items? (skipWhite (w' ++ (p ++ u))) = .ok (vs', u) := by
      rw [hskip']
      exact hspell u
    simp only [List.append_assoc]
    exact items?_more (hs _ (endsNumerals_append hw (by simp) _)) (hskip _) hrest
  · simp at hafter

theorem exists_fields (ih : ∀ u : Text, u.length < t.length → AllSpelled u)
    (h : fields? t before = .ok (fields, r)) :
    ∃ s, t = s ++ '\x7d' :: r ∧ ∀ u, fields? (s ++ '\x7d' :: u) before = .ok (fields, u) := by
  rw [fields?_eq] at h
  split at h
  · rename_i cs
    split at h
    · simp at h
    · rename_i name q hname
      obtain ⟨n, rfl, hn⟩ := exists_readText hname
      split at h
      · rename_i s hcolon
        obtain ⟨w₁, rfl, -, hskip₁⟩ := exists_skipWhite (List.cons_ne_nil ':' []) hcolon
        obtain ⟨⟨v, x⟩, hv, hafter⟩ := bind_eq_ok_iff.mp h
        -- the value is shorter than the object, and so are the fields that follow it
        have hlt : (skipWhite s).length < ('"' :: (n ++ (w₁ ++ ([':'] ++ s)))).length := by
          have := length_skipWhite_le s
          simp only [List.length_append, List.length_cons]
          omega
        obtain ⟨p, hp, hspell⟩ := (ih _ hlt).value hv
        obtain ⟨w₂, rfl, -, hskip₂⟩ := exists_skipWhite hspell.ne_nil hp
        have hvalue (c : Char) (hc : c ∈ [',', ']', '\x7d']) {w : Text}
            (hw : ∀ d ∈ w, isWhite d = true) (u : Text) :
            value? (skipWhite (w₂ ++ (p ++ (w ++ c :: u)))) = .ok (v, w ++ c :: u) := by
          rw [hskip₂]
          exact hspell _ (endsNumerals_append hw hc u)
        -- a brace ends the object, a comma goes on to its next field
        split at hafter
        · rename_i r' hbrace
          obtain ⟨rfl, rfl⟩ : setField name v before = fields ∧ r' = r := by simpa using hafter
          obtain ⟨w₃, rfl, hw₃, hskip₃⟩ := exists_skipWhite (List.cons_ne_nil '\x7d' []) hbrace
          refine ⟨'"' :: (n ++ (w₁ ++ ([':'] ++ (w₂ ++ (p ++ w₃))))), by simp, fun u => ?_⟩
          simp only [List.cons_append, List.append_assoc]
          exact fields?_last (hn _) (hskip₁ _) (hvalue '\x7d' (by simp) hw₃ u) (hskip₃ u)
        · rename_i y hcomma
          obtain ⟨w₃, rfl, hw₃, hskip₃⟩ := exists_skipWhite (List.cons_ne_nil ',' []) hcomma
          have hlt' : (skipWhite y).length <
              ('"' :: (n ++ (w₁ ++ ([':'] ++ (w₂ ++ (p ++ (w₃ ++ ([','] ++ y)))))))).length := by
            have := length_skipWhite_le y
            simp only [List.length_append, List.length_cons]
            omega
          obtain ⟨p', hp', hspell'⟩ := (ih _ hlt').fields hafter
          have hclosed : skipWhite y = p' ++ ['\x7d'] ++ r := by simp [hp']
          obtain ⟨w₄, rfl, -, hskip₄⟩ := exists_skipWhite (by simp) hclosed
          refine ⟨'"' :: (n ++ (w₁ ++ ([':'] ++ (w₂ ++ (p ++ (w₃ ++ ([','] ++ (w₄ ++ p')))))))),
            by simp, fun u => ?_⟩
          have hrest : fields? (skipWhite (w₄ ++ (p' ++ '\x7d' :: u))) (setField name v before) =
              .ok (fields, u) := by
            have hskip : skipWhite (w₄ ++ (p' ++ '\x7d' :: u)) = p' ++ '\x7d' :: u := by
              simpa using hskip₄ u
            rw [hskip]
            exact hspell' u
          simp only [List.cons_append, List.append_assoc]
          exact (fields?_more (hn _) (hskip₁ _) (hvalue ',' (by simp) hw₃ _) (hskip₃ _)).trans hrest
        · simp at hafter
      · simp at h
  · simp at h

theorem value?_plain (hquote : c ≠ '"') (hbracket : c ≠ '[') (hbrace : c ≠ '\x7b') :
    value? (c :: t) = (readPlain (c :: t)).bind fun p =>
      if p.2.length < (c :: t).length then .ok p else .error .malformed := by
  rw [value?_eq]
  split
  · exact absurd (List.cons.inj ‹_›).1 hquote
  · exact absurd (List.cons.inj ‹_›).1 hbracket
  · exact absurd (List.cons.inj ‹_›).1 hbrace
  · rfl

theorem exists_text (h : value? ('"' :: t) = .ok (v, r)) :
    ∃ s, t = s ++ r ∧ ∀ u, value? ('"' :: (s ++ u)) = .ok (v, u) := by
  rw [value?_text] at h
  split at h
  · simp at h
  · rename_i s q hread
    obtain ⟨rfl, rfl⟩ : Json.str s = v ∧ q = r := by simpa using h
    obtain ⟨p, rfl, hp⟩ := exists_readText hread
    exact ⟨p, rfl, fun u => by rw [value?_text, hp u]⟩

theorem exists_plain (hquote : c ≠ '"') (hbracket : c ≠ '[') (hbrace : c ≠ '\x7b')
    (h : value? (c :: t) = .ok (v, r)) : ∃ s, c :: t = s ++ r ∧ Spells s v := by
  rw [value?_plain hquote hbracket hbrace] at h
  obtain ⟨⟨v', r'⟩, hplain, hafter⟩ := bind_eq_ok_iff.mp h
  obtain ⟨rfl, rfl⟩ : v' = v ∧ r' = r := by
    split at hafter
    · simpa using hafter
    · simp at hafter
  obtain ⟨p, hp, hne, hspell⟩ := exists_readPlain hplain
  obtain ⟨d, p, rfl⟩ := List.exists_cons_of_ne_nil hne
  obtain ⟨rfl, -⟩ := List.cons.inj hp
  refine ⟨_, hp, fun u hu => ?_⟩
  have hread := hspell u hu
  rw [List.cons_append] at hread ⊢
  have hlt : u.length < (c :: (p ++ u)).length := by
    rw [List.length_cons, List.length_append]
    omega
  rw [value?_plain hquote hbracket hbrace, hread]
  exact if_pos hlt

theorem exists_value (ih : ∀ u : Text, u.length < t.length → AllSpelled u)
    (h : value? t = .ok (v, r)) : ∃ s, t = s ++ r ∧ Spells s v := by
  cases t with
  | nil => simp [value?_nil] at h
  | cons c t =>
    have ih' : ∀ u : Text, u.length ≤ t.length → AllSpelled u :=
      fun u hu => ih u (Nat.lt_succ_of_le hu)
    by_cases hquote : c = '"'
    · subst hquote
      obtain ⟨s, rfl, hs⟩ := exists_text h
      exact ⟨'"' :: s, rfl, fun u _ => hs u⟩
    · by_cases hbracket : c = '['
      · subst hbracket
        obtain ⟨s, rfl, hs⟩ := exists_list ih' h
        exact ⟨'[' :: s, rfl, fun u _ => hs u⟩
      · by_cases hbrace : c = '\x7b'
        · subst hbrace
          obtain ⟨s, rfl, hs⟩ := exists_object ih' h
          exact ⟨'\x7b' :: (s ++ ['\x7d']), by simp, fun u _ => by simpa using hs u⟩
        · exact exists_plain hquote hbracket hbrace h

/-- What is read from the front of a text does not depend on what is left of it. -/
theorem allSpelled (t : Text) : AllSpelled t := by
  induction h : t.length using Nat.strongRecOn generalizing t with
  | ind n ih =>
    have ih' : ∀ u : Text, u.length < t.length → AllSpelled u := fun u hu => ih _ (h ▸ hu) u rfl
    -- a list starts with a value of the whole text, so that the value comes first
    exact ⟨exists_value ih', exists_items (exists_value ih') ih', exists_fields ih'⟩

theorem parse_eq (t : Text) :
    parse t = (value? (skipWhite t)).bind fun p =>
      if skipWhite p.2 = [] then .ok p.1 else .error .malformed := by
  unfold parse value?
  split <;> simp_all [Except.map, Except.bind]

theorem parse_of_value? (h : value? (skipWhite t) = .ok (v, r)) (hr : skipWhite r = []) :
    parse t = .ok v := by
  rw [parse_eq, h]
  exact if_pos hr

/-- The middle part spells the value, with nothing but white space around it. -/
structure IsSpelling (v : Json) (before inner after : Text) : Prop where
  white_before : ∀ d ∈ before, isWhite d = true
  white_after : ∀ d ∈ after, isWhite d = true
  skips : ∀ u, skipWhite (before ++ (inner ++ u)) = inner ++ u
  spells : Spells inner v

theorem parse_eq_ok_iff :
    parse t = .ok v ↔
      ∃ before inner after, t = before ++ (inner ++ after) ∧ IsSpelling v before inner after := by
  rw [parse_eq]
  constructor
  · intro h
    obtain ⟨⟨v', r⟩, hv, hafter⟩ := bind_eq_ok_iff.mp h
    obtain ⟨s, hs, hspell⟩ := (allSpelled _).value hv
    obtain ⟨w, rfl, hw, hskip⟩ := exists_skipWhite hspell.ne_nil hs
    split at hafter
    · rename_i hwhite
      obtain rfl : v' = v := by simpa using hafter
      exact ⟨w, s, r, rfl, hw, by simpa [skipWhite] using hwhite, hskip, hspell⟩
    · simp at hafter
  · rintro ⟨before, inner, after, rfl, -, hafter, hskip, hspell⟩
    have hends : EndsNumerals after :=
      fun d hd => endsNumeral_of_isWhite (hafter d (List.mem_of_mem_head? hd))
    rw [hskip, hspell after hends]
    exact if_pos (by simpa [skipWhite] using hafter)

theorem value?_of_parse (h : parse t = .ok v) (c : Char) (hc : c ∈ [',', ']', '\x7d'])
    (u : Text) :
    ∃ q, value? (skipWhite (t ++ c :: u)) = .ok (v, q) ∧ skipWhite q = c :: u := by
  obtain ⟨before, inner, after, rfl, -, hafter, hskip, hspell⟩ := parse_eq_ok_iff.mp h
  refine ⟨after ++ c :: u, ?_, ?_⟩
  · rw [List.append_assoc, List.append_assoc, hskip]
    exact hspell _ (endsNumerals_append hafter hc u)
  · have hblack : isWhite c = false := by
      simp only [List.mem_cons, List.not_mem_nil, or_false] at hc
      rcases hc with rfl | rfl | rfl <;> rfl
    exact (Text.span_iff.mpr ⟨rfl, hafter, by simpa using hblack⟩).2

theorem value?_closing (t : Text) : value? (']' :: t) = .error .malformed := by
  rw [value?_plain (by decide) (by decide) (by decide)]
  rfl

theorem items?_of_parse {x : Text} {xs : List Text} (hx : parse x = .ok v)
    (hxs : List.Forall₂ (fun x v => parse x = .ok v) xs vs) (u : Text) :
    items? (skipWhite ([','].intercalate (x :: xs) ++ ']' :: u)) = .ok (v :: vs, u) := by
  induction hxs generalizing x v with
  | nil =>
    obtain ⟨q, hv, hq⟩ := value?_of_parse hx ']' (by simp) u
    rw [List.intercalate_singleton]
    exact items?_last hv hq
  | @cons x' v' xs vs hx' _ ih =>
    obtain ⟨q, hv, hq⟩ := value?_of_parse hx ',' (by simp)
      ([','].intercalate (x' :: xs) ++ ']' :: u)
    rw [List.intercalate_cons_cons, List.append_assoc, List.append_assoc]
    exact items?_more hv hq (ih hx')

/-- Texts that each spell a value spell the list of the values, put in brackets with commas
between. -/
theorem parse_list {xs : List Text} (h : List.Forall₂ (fun x v => parse x = .ok v) xs vs) :
    parse ('[' :: ([','].intercalate xs ++ [']'])) = .ok (.arr vs) := by
  have hread : value? ('[' :: ([','].intercalate xs ++ [']'])) = .ok (.arr vs, []) := by
    rw [value?_bracket]
    cases h with
    | nil => rfl
    | cons hx hxs =>
      have hitems := items?_of_parse hx hxs []
      split
      · rename_i r hskip
        rw [hskip, items?_eq, value?_closing] at hitems
        simp [Except.bind] at hitems
      · rw [hitems]
        rfl
  rw [parse_eq]
  have hskip : skipWhite ('[' :: ([','].intercalate xs ++ [']'])) =
      '[' :: ([','].intercalate xs ++ [']']) := rfl
  rw [hskip, hread]
  rfl

theorem readMagnitude_ne_obj (negative : Bool) (t r : Text) (fields : List (Text × Json)) :
    readMagnitude negative t ≠ .ok (.obj fields, r) := by
  unfold readMagnitude
  split
  · simp
  · dsimp only
    split
    · split <;> simp
    · simp

theorem readPlain_ne_obj : readPlain t ≠ .ok (.obj fields, r) := by
  intro h
  unfold readPlain at h
  split at h
  · rename_i word v hfind
    have hl := List.mem_of_find?_eq_some hfind
    obtain ⟨rfl, -⟩ : v = .obj fields ∧ t.drop word.length = r := by simpa using h
    simp [literals] at hl
  · split at h <;> exact readMagnitude_ne_obj _ _ _ _ h

theorem eq_brace_of_value? (h : value? (c :: t) = .ok (.obj fields, r)) : c = '\x7b' := by
  by_contra hbrace
  by_cases hquote : c = '"'
  · subst hquote
    rw [value?_text] at h
    split at h <;> simp at h
  · by_cases hbracket : c = '['
    · subst hbracket
      rw [value?_bracket] at h
      split at h
      · simp at h
      · obtain ⟨p, -, he⟩ := map_eq_ok_iff.mp h
        simp at he
    · rw [value?_plain hquote hbracket hbrace] at h
      obtain ⟨⟨v, r'⟩, hplain, hafter⟩ := bind_eq_ok_iff.mp h
      split at hafter
      · obtain ⟨rfl, -⟩ : v = .obj fields ∧ r' = r := by simpa using hafter
        exact readPlain_ne_obj hplain
      · simp at hafter

theorem Spells.braces (h : Spells s (.obj fields)) : ∃ p, s = '\x7b' :: (p ++ ['\x7d']) := by
  have hread := h [] (by simp [EndsNumerals])
  rw [List.append_nil] at hread
  obtain ⟨c, p, rfl⟩ := List.exists_cons_of_ne_nil h.ne_nil
  obtain rfl := eq_brace_of_value? hread
  obtain ⟨p, rfl, -⟩ := exists_object (fun u _ => allSpelled u) hread
  exact ⟨p, rfl⟩

end ArticleArchive.Json
