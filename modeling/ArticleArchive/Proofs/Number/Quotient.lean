import ArticleArchive.Number.Binary64

namespace ArticleArchive.Binary64

theorem ceilDiv_eq {num den c : Nat} (hle : num ≤ c * den) (hlt : c * den < num + den) :
    (num + (den - 1)) / den = c := by
  apply Nat.div_eq_of_lt_le
  · omega
  · rw [Nat.succ_mul]
    omega

theorem ceilDiv_spec (num : Nat) {den : Nat} (hd : 0 < den) :
    num ≤ (num + (den - 1)) / den * den ∧ (num + (den - 1)) / den * den < num + den := by
  have hdiv := Nat.div_add_mod (num + (den - 1)) den
  have hmod := Nat.mod_lt (num + (den - 1)) hd
  rw [Nat.mul_comm] at hdiv
  omega

theorem roundHalfEven_spec (num : Nat) {den : Nat} (hd : 0 < den) :
    2 * (roundHalfEven num den * den) ≤ 2 * num + den ∧
      2 * num ≤ 2 * (roundHalfEven num den * den) + den := by
  have hdiv := Nat.div_add_mod num den
  have hmod := Nat.mod_lt num hd
  rw [Nat.mul_comm] at hdiv
  unfold roundHalfEven
  dsimp only
  split
  · omega
  · split
    · rw [Nat.add_mul]
      omega
    · rcases Nat.mod_two_eq_zero_or_one (num / den) with h | h
      · rw [h, Nat.add_zero]
        omega
      · rw [h, Nat.add_mul]
        omega

theorem mul_two_pow_floorLog2_le {num : Nat} (hnum : num ≠ 0) (den : Nat)
    (h : 0 ≤ floorLog2 num den) :
    den * 2 ^ (floorLog2 num den).toNat ≤ num := by
  unfold floorLog2 at h ⊢
  dsimp only at h ⊢
  split at h
  · rename_i hle
    rw [if_pos hle]
    rwa [scaled, if_pos h] at hle
  · rename_i hlt
    rw [if_neg hlt]
    have hden : den < 2 ^ (den.log2 + 1) := Nat.lt_log2_self
    have hsum : den.log2 + 1 + ((num.log2 : Int) - den.log2 - 1).toNat = num.log2 := by omega
    calc den * 2 ^ ((num.log2 : Int) - den.log2 - 1).toNat
        ≤ 2 ^ (den.log2 + 1) * 2 ^ ((num.log2 : Int) - den.log2 - 1).toNat :=
          Nat.mul_le_mul_right _ (Nat.le_of_lt hden)
      _ = 2 ^ num.log2 := by rw [← Nat.pow_add, hsum]
      _ ≤ num := Nat.log2_self_le hnum

/-- A quotient of `num` by `den` in steps of one `steps`th, each of them less than two `den`ths,
is rounded to a number with the same ceiling. -/
theorem roundHalfEven_within {num den steps c : Nat} (hd : 0 < den) (hle : num ≤ c * den)
    (hlt : c * den < num + den) (hsteps : den < 2 * steps) :
    roundHalfEven (num * steps) den ≤ c * steps ∧
      c * steps < roundHalfEven (num * steps) den + steps := by
  obtain ⟨hlow, hhigh⟩ := roundHalfEven_spec (num * steps) hd
  generalize roundHalfEven (num * steps) den = m at hlow hhigh
  have hnum : num * steps ≤ c * steps * den := by
    rw [Nat.mul_right_comm]
    exact Nat.mul_le_mul_right steps hle
  have hdistance : c * steps * den + steps ≤ num * steps + steps * den := by
    rw [Nat.mul_right_comm, Nat.mul_comm steps den, ← Nat.succ_mul, ← Nat.add_mul]
    exact Nat.mul_le_mul_right steps hlt
  constructor
  · apply Nat.le_of_not_lt
    intro hm
    -- a whole step over the ceiling is more than rounding can add
    have hm : (c * steps + 1) * den ≤ m * den := Nat.mul_le_mul_right den hm
    rw [Nat.succ_mul] at hm
    omega
  · apply Nat.lt_of_not_le
    intro hm
    -- the quotient is over `c - 1` by one `den`th at least, which is more than half a step
    have hm : (m + steps) * den ≤ c * steps * den := Nat.mul_le_mul_right den hm
    rw [Nat.add_mul] at hm
    omega

theorem ceil?_finite {m k c : Nat} (hle : m ≤ c * 2 ^ k) (hlt : c * 2 ^ k < m + 2 ^ k) :
    (finite false m (-(k : Int))).ceil? = some (c : Int) := by
  have hnum : (-(k : Int)).toNat = 0 := by omega
  simp only [ceil?, hnum, Nat.pow_zero, Nat.mul_one, Int.neg_neg, Int.toNat_natCast,
    ceilDiv_eq hle hlt]
  rfl

theorem ceil?_zero (k : Nat) : (finite false 0 (-(k : Int))).ceil? = some 0 := by
  apply ceil?_finite (Nat.zero_le _)
  rw [Nat.zero_mul, Nat.zero_add]
  exact Nat.two_pow_pos k

/-- A mantissa that rounding carries to `2 ^ 53` is halved, which leaves the value as it is. -/
theorem ceil?_carried {m k c : Nat} (hle : m ≤ c * 2 ^ k) (hlt : c * 2 ^ k < m + 2 ^ k)
    (hk : m = 2 ^ (53 : Nat) → k ≠ 0) :
    (finite false (if (m == 2 ^ (53 : Nat)) = true then 2 ^ (52 : Nat) else m)
      (if (m == 2 ^ (53 : Nat)) = true then -(k : Int) + 1 else -(k : Int))).ceil? =
        some (c : Int) := by
  by_cases hm : m = 2 ^ (53 : Nat)
  · obtain ⟨j, rfl⟩ := Nat.exists_eq_succ_of_ne_zero (hk hm)
    rw [if_pos (beq_iff_eq.mpr hm), if_pos (beq_iff_eq.mpr hm),
      show (-((j + 1 : Nat) : Int) + 1) = -(j : Int) by omega]
    rw [Nat.pow_succ, ← Nat.mul_assoc] at hle hlt
    apply ceil?_finite <;> omega
  · rw [if_neg (by simpa using hm), if_neg (by simpa using hm)]
    exact ceil?_finite hle hlt

theorem scaled_neg (num den k : Nat) : scaled num den (-(k : Int)) = (num * 2 ^ k, den) := by
  unfold scaled
  split
  · obtain rfl : k = 0 := by omega
    simp
  · rw [Int.neg_neg, Int.toNat_natCast]

theorem exists_steps {num den : Nat} (hpos : num ≠ 0) (hnum : num < 2 ^ (53 : Nat)) (hd : 0 < den)
    (hden : den < 2 ^ (53 : Nat)) :
    ∃ k : Nat, max (floorLog2 num den - 52) (-1074) = -(k : Int) ∧ den < 2 * 2 ^ k := by
  have hfloor := mul_two_pow_floorLog2_le hpos den
  generalize floorLog2 num den = e at hfloor
  by_cases he : 0 ≤ e
  · obtain ⟨n, rfl⟩ := Int.eq_ofNat_of_zero_le he
    have hle : den * 2 ^ n ≤ num := hfloor he
    have hn : n ≤ 52 := by
      apply Nat.le_of_not_lt
      intro hn
      have hpow : 2 ^ (53 : Nat) ≤ 2 ^ n := Nat.pow_le_pow_right (by decide) hn
      have hone : 1 * 2 ^ n ≤ den * 2 ^ n := Nat.mul_le_mul_right _ hd
      omega
    refine ⟨52 - n, by omega, ?_⟩
    apply Nat.lt_of_mul_lt_mul_right (a := 2 ^ n)
    calc den * 2 ^ n < 2 * 2 ^ (52 : Nat) := by omega
      _ = 2 * 2 ^ (52 - n) * 2 ^ n := by rw [Nat.mul_assoc, ← Nat.pow_add, Nat.sub_add_cancel hn]
  -- a quotient under one has a mantissa of 53 bits behind the point, or the least exponent
  · refine ⟨(min (52 - e) 1074).toNat, by omega, ?_⟩
    have hpow : 2 ^ (52 : Nat) ≤ 2 ^ (min (52 - e) 1074).toNat :=
      Nat.pow_le_pow_right (by decide) (by omega)
    omega

theorem ceil?_ofRatio {num den : Nat} (hnum : num < 2 ^ (53 : Nat)) (hd : 0 < den)
    (hden : den < 2 ^ (53 : Nat)) :
    (ofRatio false num den).ceil? = some (((num + (den - 1)) / den : Nat) : Int) := by
  obtain ⟨hle, hlt⟩ := ceilDiv_spec num hd
  generalize (num + (den - 1)) / den = c at hle hlt
  by_cases hpos : num = 0
  · obtain rfl : c = 0 := by
      have hc : c * den < 1 * den := by omega
      exact Nat.lt_one_iff.mp (Nat.lt_of_mul_lt_mul_right hc)
    rw [ofRatio, if_pos (.inl hpos)]
    exact ceil?_zero 1074
  · obtain ⟨k, hk, hsteps⟩ := exists_steps hpos hnum hd hden
    obtain ⟨hmle, hmlt⟩ := roundHalfEven_within hd hle hlt hsteps
    rw [ofRatio, if_neg (by omega)]
    dsimp only
    rw [hk, scaled_neg]
    dsimp only
    generalize roundHalfEven (num * 2 ^ k) den = m at hmle hmlt
    rw [if_neg (by split <;> omega)]
    apply ceil?_carried hmle hmlt
    rintro hm rfl
    -- whole steps mean a divisor of one, and the mantissa is the dividend
    obtain rfl : den = 1 := by omega
    omega

theorem floorLog2_le_log2 (num den : Nat) : floorLog2 num den ≤ num.log2 := by
  unfold floorLog2
  dsimp only
  split <;> omega

theorem exists_ceil?_ofRatio {num : Nat} (hnum : num < 2 ^ (1023 : Nat)) (negative : Bool)
    (den : Nat) : ∃ c, (ofRatio negative num den).ceil? = some c := by
  unfold ofRatio
  split
  · exact ⟨_, rfl⟩
  · rename_i hne
    have hlog : num.log2 < 1023 := (Nat.log2_lt fun h => hne (.inl h)).mpr hnum
    have hfloor := floorLog2_le_log2 num den
    dsimp only
    rw [if_neg (by split <;> omega)]
    exact ⟨_, rfl⟩

end ArticleArchive.Binary64
