namespace ArticleArchive

/-- The index `i` counted from the front, or from the back when it is negative, kept within
`0` to `n`. -/
def clampIndex (n : Nat) (i : Int) : Nat :=
  if i < 0 then (i + n).toNat else min i.toNat n

/-- The characters from index `start` up to index `stop`; a negative index counts from the end. -/
def slice {α : Type} (t : List α) (start stop : Int) : List α :=
  let i := clampIndex t.length start
  (t.drop i).take (clampIndex t.length stop - i)

theorem clampIndex_natCast (n k : Nat) : clampIndex n k = min k n := by
  unfold clampIndex
  split <;> omega

theorem slice_natCast {α : Type} (t : List α) (i j : Nat) : slice t i j = (t.take j).drop i := by
  rw [slice, clampIndex_natCast, clampIndex_natCast, List.drop_take]
  rcases Nat.le_total i t.length with hi | hi
  · rw [Nat.min_eq_left hi, List.take_eq_take_iff, List.length_drop]
    omega
  · rw [Nat.min_eq_right hi, List.drop_length, List.drop_eq_nil_of_le hi, List.take_nil,
      List.take_nil]

theorem drop_take_append_drop {α : Type} (t : List α) {i j : Nat} (h : i ≤ j) :
    (t.take j).drop i ++ t.drop j = t.drop i := by
  have hdrop : t.drop j = (t.drop i).drop (j - i) := by
    rw [List.drop_drop, Nat.add_sub_cancel' h]
  rw [List.drop_take, hdrop, List.take_append_drop]

end ArticleArchive
