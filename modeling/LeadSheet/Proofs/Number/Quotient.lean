import LeadSheet.Proofs.Number.Exactness

/-!
The floor of a quotient as it is reckoned with binary64 numbers. Rounding on the way never makes it
greater than it is, as long as the quotient is not too large.
-/
namespace LeadSheet.Binary64

private theorem sub_finite (x y : Rat) : sub (finite x) (finite y) = round (x - y) := by
  rw [sub, neg]
  split_ifs with hy
  · rw [hy, sub_zero]
    exact congrArg round (add_zero x)
  · exact congrArg round (sub_eq_add_neg x y).symm

private theorem remainder_finite {x y : Rat} (hx : 0 ≤ x) (hy : 0 < y) :
    remainder (finite x) (finite y) = finite (x - ⌊x / y⌋ * y) := by
  have hzero : (finite y).isZero = false := decide_eq_false hy.ne'
  have hquotient : ¬ (finite x).exact / (finite y).exact < 0 := not_lt.mpr (div_nonneg hx hy.le)
  have hrest : remainder (finite x) (finite y) =
      if x - ⌊x / y⌋ * y = 0 then zero (decide (x < 0)) else finite (x - ⌊x / y⌋ * y) := by
    rw [remainder.eq_def]
    dsimp only
    rw [if_neg (ne_true_of_eq_false hzero), if_neg hquotient]
    rfl
  rw [hrest]
  split_ifs with hr
  · rw [hr, zero, decide_eq_false (not_lt.mpr hx)]
    rfl
  · rfl

private theorem div_finite {x y : Rat} (hx : 0 ≤ x) (hy : 0 < y) (h : rounded (x / y) < limit) :
    div (finite x) (finite y) = finite (rounded (x / y)) := by
  have hneg : ((finite x).isNegative != (finite y).isNegative) = false := by
    rw [isNegative, isNegative, decide_eq_false (not_lt.mpr hx), decide_eq_false (not_lt.mpr hy.le)]
    rfl
  have hzero : (finite y).isZero = false := decide_eq_false hy.ne'
  rw [div.eq_def]
  dsimp only
  rw [if_neg (ne_true_of_eq_false hzero), hneg]
  split_ifs with hz
  · rw [of_decide_eq_true hz, zero_div, rounded_zero]
    rfl
  · exact round_eq_finite (div_nonneg hx hy.le) h

theorem mul_finite {x y : Rat} (hx : 0 ≤ x) (hy : 0 ≤ y) :
    mul (finite x) (finite y) = round (x * y) := by
  have hneg : ((finite x).isNegative != (finite y).isNegative) = false := by
    rw [isNegative, isNegative, decide_eq_false (not_lt.mpr hx), decide_eq_false (not_lt.mpr hy)]
    rfl
  rw [mul.eq_def]
  dsimp only
  rw [hneg]
  split_ifs with hz
  · have hproduct : x * y = 0 := by
      rcases Bool.or_eq_true_iff.mp hz with hz | hz
      · rw [of_decide_eq_true hz, zero_mul]
      · rw [of_decide_eq_true hz, mul_zero]
    rw [hproduct]
    rfl
  · rfl

theorem add_natCast_one {n : Nat} (h : n < 2 ^ 53) :
    add (finite n) (finite 1) = finite (n + 1 : Nat) := by
  rw [← round_natCast h, Nat.cast_succ]
  rfl

/-- Rounding makes a number greater or smaller by a small part of it only. -/
theorem rounded_bounds {q : Rat} (h : 2 ^ (-1022 : Int) ≤ q) :
    q - q / 2 ^ 53 ≤ rounded q ∧ rounded q ≤ q + q / 2 ^ 53 := by
  obtain ⟨hlow, hhigh⟩ := abs_le.mp (abs_rounded_sub_le h)
  constructor
  · linarith
  · linarith

theorem rounded_half : rounded (1 / 2) = 1 / 2 := by
  have h : Representable (1 / 2) := ⟨1, -1, by decide, by decide, by norm_num⟩
  exact h.rounded_eq

/-- A number less than a half above an integer is set to this integer at most. -/
theorem nearerInteger_le {d : Rat} {k : Nat} (hd : 0 ≤ d) (h : d < k + 1 / 2) (hk : k ≤ 2 ^ 50) :
    ∃ f : Nat, (if 1 / 2 < (sub (finite d) (roundDown (finite d))).exact
        then add (roundDown (finite d)) (finite 1) else roundDown (finite d)) = finite f ∧
      f ≤ k := by
  obtain ⟨n, hn⟩ := Int.eq_ofNat_of_zero_le (Int.floor_nonneg.mpr hd)
  have hdown : roundDown (finite d) = finite n := by
    rw [← Int.cast_natCast, ← hn]
    rfl
  have hlow : (n : Rat) ≤ d := by
    have := Int.floor_le d
    rwa [hn] at this
  have hhigh : d < n + 1 := by
    have := Int.lt_floor_add_one d
    rwa [hn] at this
  have hnk : n ≤ k := by
    have hlt : (n : Rat) < ((k + 1 : Nat) : Rat) := by
      push_cast
      linarith
    exact Nat.lt_succ_iff.mp (Nat.cast_lt.mp hlt)
  have hgap : (sub (finite d) (finite n)).exact = rounded (d - n) := by
    have hone : d - n ≤ 2 ^ 0 := by linarith
    have hsmall := rounded_lt_limit (sub_nonneg.mpr hlow) hone (by decide)
    rw [sub_finite, round_eq_finite (sub_nonneg.mpr hlow) hsmall]
    rfl
  rw [hdown, hgap]
  split_ifs with hup
  · -- rounded up: the integer below is not yet the one that bounds
    refine ⟨n + 1, add_natCast_one (by omega), Nat.succ_le_of_lt (lt_of_le_of_ne hnk ?_)⟩
    rintro rfl
    have hhalf : d - n ≤ 1 / 2 := by linarith
    have hrounded := rounded_mono (sub_nonneg.mpr hlow) hhalf
    rw [rounded_half] at hrounded
    exact absurd hup (not_lt.mpr hrounded)
  · exact ⟨n, rfl, hnk⟩

/-- A multiple that is rounded and divided by its length again is rounded to a number close to how
many lengths it has. -/
theorem rounded_multiple_div {y : Rat} (hy : 2 ^ (-1022 : Int) ≤ y) {k : Nat} (hk : k ≤ 2 ^ 50) :
    rounded (k * y) / y ≤ 2 ^ 51 ∧ rounded (rounded (k * y) / y) < k + 1 / 2 := by
  have hpos : 0 < y := (zpow_pos two_pos _).trans_le hy
  rcases k.eq_zero_or_pos with rfl | hk0
  · rw [Nat.cast_zero, zero_mul, rounded_zero, zero_div, rounded_zero]
    exact ⟨pow_nonneg zero_le_two _, by norm_num⟩
  have hone : (1 : Rat) ≤ k := by exact_mod_cast hk0
  have hle : (k : Rat) ≤ 2 ^ 50 := by exact_mod_cast hk
  obtain ⟨hlow, hhigh⟩ := rounded_bounds (hy.trans (le_mul_of_one_le_left hpos.le hone))
  have hlow' : k - k / 2 ^ 53 ≤ rounded (k * y) / y := by
    rw [le_div_iff₀ hpos]
    linarith
  have hhigh' : rounded (k * y) / y ≤ k + k / 2 ^ 53 := by
    rw [div_le_iff₀ hpos]
    linarith
  have hnormal : 2 ^ (-1022 : Int) ≤ rounded (k * y) / y := by
    calc (2 : Rat) ^ (-1022 : Int) ≤ 2 ^ (-1 : Int) := zpow_le_zpow_right₀ one_le_two (by decide)
      _ = 1 / 2 := by norm_num
      _ ≤ rounded (k * y) / y := by linarith
  obtain ⟨-, hupper⟩ := rounded_bounds hnormal
  constructor
  · linarith
  · linarith

/-- Of numbers that are not negative, the floor of the quotient is reckoned from the multiple below. -/
theorem floorDiv_of_nonneg {x y : Rat} (hx : 0 ≤ x) (hy : 0 < y) {k : Nat} (hfloor : ⌊x / y⌋ = k) :
    floorDiv (finite x) (finite y) =
      let quotient := div (round (k * y)) (finite y)
      if quotient.isZero then zero (div (finite x) (finite y)).isNegative
      else if 1 / 2 < (sub quotient (roundDown quotient)).exact
        then add (roundDown quotient) (finite 1) else roundDown quotient := by
  have hfit : (k : Rat) * y ≤ x := by
    have hle := Int.floor_le (x / y)
    rw [hfloor] at hle
    exact (le_div_iff₀ hy).mp hle
  have hsign : (finite (x - k * y)).isNegative = (finite y).isNegative := by
    rw [isNegative, isNegative, decide_eq_false (not_lt.mpr (sub_nonneg.mpr hfit)),
      decide_eq_false (not_lt.mpr hy.le)]
  rw [floorDiv, remainder_finite hx hy, hfloor, Int.cast_natCast]
  dsimp only
  rw [sub_finite, sub_sub_cancel, hsign, bne_self_eq_false, Bool.and_false,
    if_neg Bool.false_ne_true]

/-- The sign of a quotient that is not too large. -/
theorem isNegative_div_finite {x y : Rat} (hx : 0 ≤ x) (hy : 0 < y) (h : rounded (x / y) < limit) :
    (div (finite x) (finite y)).isNegative = false := by
  rw [div_finite hx hy h, isNegative]
  exact decide_eq_false (not_lt.mpr (rounded_nonneg (div_nonneg hx hy.le)))

/-- The floor of a quotient is at most what it is in exact arithmetic. -/
theorem floorDiv_finite {x y : Rat} (hx : 0 ≤ x) (hbig : rounded x < limit)
    (hy : 2 ^ (-1022 : Int) ≤ y) (hk : ⌊x / y⌋ ≤ 2 ^ 50) :
    ∃ f : Nat, floorDiv (finite x) (finite y) = finite f ∧ (f : Int) ≤ ⌊x / y⌋ := by
  have hpos : 0 < y := (zpow_pos two_pos _).trans_le hy
  have hnonneg : 0 ≤ x / y := div_nonneg hx hpos.le
  obtain ⟨k, hfloor⟩ := Int.eq_ofNat_of_zero_le (Int.floor_nonneg.mpr hnonneg)
  have hk : k ≤ 2 ^ 50 := by
    rw [hfloor] at hk
    exact_mod_cast hk
  have hfit : (k : Rat) * y ≤ x := by
    have hle := Int.floor_le (x / y)
    rw [hfloor] at hle
    exact (le_div_iff₀ hpos).mp hle
  have hmultiple : 0 ≤ (k : Rat) * y := mul_nonneg k.cast_nonneg hpos.le
  have hrounded : 0 ≤ rounded (k * y) / y := div_nonneg (rounded_nonneg hmultiple) hpos.le
  obtain ⟨hquotient, hlt⟩ := rounded_multiple_div hy hk
  have hdiv : div (round (k * y)) (finite y) = finite (rounded (rounded (k * y) / y)) := by
    rw [round_eq_finite hmultiple ((rounded_mono hmultiple hfit).trans_lt hbig),
      div_finite (rounded_nonneg hmultiple) hpos (rounded_lt_limit hrounded hquotient (by decide))]
  rw [floorDiv_of_nonneg hx hpos hfloor, hfloor]
  dsimp only
  rw [hdiv]
  by_cases hzero : (finite (rounded (rounded (k * y) / y))).isZero
  · have hend : x / y ≤ 2 ^ 51 := by
      have hlast := Int.lt_floor_add_one (x / y)
      have hle : (k : Rat) ≤ 2 ^ 50 := by exact_mod_cast hk
      rw [hfloor, Int.cast_natCast] at hlast
      linarith
    rw [if_pos hzero, isNegative_div_finite hx hpos (rounded_lt_limit hnonneg hend (by decide))]
    exact ⟨0, rfl, Int.natCast_nonneg k⟩
  · rw [if_neg hzero]
    obtain ⟨f, hf, hfk⟩ := nearerInteger_le (rounded_nonneg hrounded) hlt hk
    exact ⟨f, hf, Int.ofNat_le.mpr hfk⟩

/-- The floor of a quotient is exact if the multiple below is. -/
theorem floorDiv_of_multiple {x y : Rat} (hx : 0 ≤ x) (hy : 0 < y) {k : Nat} (hk : k ≤ 2 ^ 53)
    (hfloor : ⌊x / y⌋ = k) (hmultiple : round (k * y) = finite (k * y)) :
    floorDiv (finite x) (finite y) = finite k := by
  have hcast : (k : Rat) ≤ 2 ^ 53 := by exact_mod_cast hk
  have hquotient : (k : Rat) * y / y = k := mul_div_cancel_right₀ _ hy.ne'
  have hbig : rounded ((k : Rat) * y / y) < limit := by
    rw [hquotient]
    exact rounded_lt_limit k.cast_nonneg hcast (by decide)
  have hdiv : div (round (k * y)) (finite y) = finite k := by
    rw [hmultiple, div_finite (mul_nonneg k.cast_nonneg hy.le) hy hbig, hquotient,
      rounded_natCast hk]
  rw [floorDiv_of_nonneg hx hy hfloor]
  dsimp only
  rw [hdiv]
  rcases k.eq_zero_or_pos with rfl | hpos
  · have hend : x / y ≤ 2 ^ 0 := by
      have hlast := Int.lt_floor_add_one (x / y)
      rw [hfloor] at hlast
      push_cast at hlast
      linarith
    have hnonneg : 0 ≤ x / y := div_nonneg hx hy.le
    have hzero : (finite ((0 : Nat) : Rat)).isZero = true := by
      rw [Nat.cast_zero]
      rfl
    rw [if_pos hzero, isNegative_div_finite hx hy (rounded_lt_limit hnonneg hend (by decide))]
    rfl
  · have hzero : (finite (k : Rat)).isZero = false :=
      decide_eq_false (Nat.cast_ne_zero.mpr hpos.ne')
    have hdown : roundDown (finite k) = finite k := by
      change finite ((⌊(k : Rat)⌋ : Int) : Rat) = finite k
      rw [Int.floor_natCast, Int.cast_natCast]
    have hround : round 0 = finite 0 := rfl
    rw [hzero, if_neg Bool.false_ne_true, hdown, sub_finite, sub_self, hround]
    exact if_neg (by norm_num [exact])

end LeadSheet.Binary64
