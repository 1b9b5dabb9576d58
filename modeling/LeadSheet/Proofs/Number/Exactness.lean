import LeadSheet.Proofs.Number.Rounding

/-!
How far rounding to a binary64 number goes: nowhere for a multiple of a power of two with few digits,
and else by a small part of the number.
-/
namespace LeadSheet
namespace Binary64

/-- A number with at most 53 significant bits that is not below the range of binary64 numbers. -/
def Representable (q : Rat) : Prop :=
  ∃ (n : Nat) (e : Int), n ≤ 2 ^ 53 ∧ -1074 ≤ e ∧ q = n * 2 ^ e

private theorem representable_natCast {n : Nat} (h : n ≤ 2 ^ 53) : Representable n :=
  ⟨n, 0, h, by decide, by rw [zpow_zero, mul_one]⟩

private theorem rounded_of_exponent_le {n : Nat} {e : Int} (hpos : (0 : Rat) < n * 2 ^ e)
    (h : exponent (n * 2 ^ e) ≤ e) : rounded (n * 2 ^ e) = n * 2 ^ e := by
  have hn := nearestEven_mul_zpow_div h n
  rw [Int.cast_natCast] at hn
  rw [rounded, spacing_of_pos hpos, hn, div_mul_cancel₀ _ (zpow_ne_zero _ two_ne_zero)]

private theorem magnitude_lt {q : Rat} {e : Int} (hq : 0 < q) (h : q < 2 ^ e) : magnitude q < e :=
  (zpow_lt_zpow_iff_right₀ one_lt_two).mp ((magnitude_spec hq).1.trans_lt h)

private theorem le_magnitude {q : Rat} {e : Int} (hq : 0 < q) (h : 2 ^ e ≤ q) : e ≤ magnitude q :=
  Int.lt_add_one_iff.mp ((zpow_lt_zpow_iff_right₀ one_lt_two).mp (h.trans_lt (magnitude_spec hq).2))

/-- What is representable is rounded to itself. -/
theorem Representable.rounded_eq {q : Rat} (h : Representable q) : rounded q = q := by
  obtain ⟨n, e, hn, he, rfl⟩ := h
  rcases n.eq_zero_or_pos with rfl | hpos
  · rw [Nat.cast_zero, zero_mul, rounded_zero]
  have hq : (0 : Rat) < n * 2 ^ e := by positivity
  rcases hn.lt_or_eq with hlt | rfl
  · have hsmall : (n : Rat) * 2 ^ e < 2 ^ (53 + e) := by
      rw [zpow_add₀ two_ne_zero]
      gcongr
      exact_mod_cast hlt
    have hm := magnitude_lt hq hsmall
    refine rounded_of_exponent_le hq ?_
    rw [exponent]
    omega
  · -- the one number with 53 digits behind a one is a power of two itself
    have hone : ((2 ^ 53 : Nat) : Rat) * 2 ^ e = (1 : Nat) * 2 ^ (53 + e) := by
      rw [zpow_add₀ two_ne_zero]
      norm_num
    rw [hone] at hq ⊢
    refine rounded_of_exponent_le hq ?_
    have hlt : ((1 : Nat) : Rat) * 2 ^ (53 + e) < 2 ^ (53 + e + 1) := by
      rw [Nat.cast_one, one_mul]
      exact zpow_lt_zpow_right₀ one_lt_two (lt_add_one _)
    have hm := magnitude_lt hq hlt
    rw [exponent]
    omega

private theorem representable_rounded {q : Rat} (hq : 0 ≤ q) : Representable (rounded q) := by
  rcases hq.eq_or_lt with rfl | hpos
  · exact ⟨0, 0, Nat.zero_le _, by decide, by simp⟩
  have hspacing : (0 : Rat) < 2 ^ exponent q := zpow_pos two_pos _
  have hlow : 0 ≤ nearestEven (q / 2 ^ exponent q) := by
    calc (0 : Int) = nearestEven ((0 : Int) : Rat) := (nearestEven_intCast 0).symm
      _ ≤ nearestEven (q / 2 ^ exponent q) := nearestEven_mono (by push_cast; positivity)
  have hhigh : nearestEven (q / 2 ^ exponent q) ≤ 2 ^ 53 := by
    calc nearestEven (q / 2 ^ exponent q) ≤ nearestEven ((2 ^ 53 : Int) : Rat) := ?_
      _ = 2 ^ 53 := nearestEven_intCast _
    apply nearestEven_mono
    rw [div_le_iff₀ hspacing]
    calc q ≤ 2 ^ (magnitude q + 1) := (magnitude_spec hpos).2.le
      _ ≤ 2 ^ (53 + exponent q) := by
        apply zpow_le_zpow_right₀ one_le_two
        rw [exponent]
        omega
      _ = ((2 ^ 53 : Int) : Rat) * 2 ^ exponent q := by
        rw [zpow_add₀ two_ne_zero]
        norm_num
  refine ⟨(nearestEven (q / 2 ^ exponent q)).toNat, exponent q, ?_, le_max_right _ _, ?_⟩
  · omega
  · rw [rounded, spacing_of_pos hpos, ← Int.cast_natCast, Int.toNat_of_nonneg hlow]

theorem rounded_natCast {n : Nat} (h : n ≤ 2 ^ 53) : rounded n = n :=
  (representable_natCast h).rounded_eq

/-- What is rounded to itself is so with the other sign too. -/
theorem rounded_neg {q : Rat} (hq : 0 < q) (h : rounded q = q) : rounded (-q) = -q := by
  have hspacing : 0 < spacing q := by
    rw [spacing_of_pos hq]
    exact zpow_pos two_pos _
  have hmultiple : -q / spacing q = ((-nearestEven (q / spacing q) : Int) : Rat) := by
    rw [div_eq_iff hspacing.ne', Int.cast_neg, neg_mul]
    exact congrArg Neg.neg h.symm
  have hsame : spacing (-q) = spacing q := by rw [spacing, spacing, Rat.abs_neg]
  rw [rounded, hsame, hmultiple, nearestEven_intCast, Int.cast_neg, neg_mul]
  exact congrArg Neg.neg h

/-- What is representable but for its sign is not changed by rounding. -/
theorem Representable.round_eq {q : Rat} (h : Representable |q|) (hlt : |q| < limit) :
    round q = finite q := by
  rcases lt_trichotomy q 0 with hneg | rfl | hpos
  · rw [abs_of_neg hneg] at h hlt
    have hrounded := rounded_neg (neg_pos.mpr hneg) h.rounded_eq
    rw [neg_neg] at hrounded
    have habs : q.abs < limit := by rwa [Rat.abs_of_nonpos hneg.le]
    rw [round_of_ne_zero hneg.ne, hrounded, if_neg hneg.ne, if_neg (not_le.mpr habs)]
  · rfl
  · rw [abs_of_pos hpos] at h hlt
    rw [round_of_ne_zero hpos.ne', h.rounded_eq, if_neg hpos.ne']
    have habs : q.abs < limit := by rwa [Rat.abs_of_nonneg hpos.le]
    rw [if_neg (not_le.mpr habs)]

theorem rounded_rounded {q : Rat} (hq : 0 ≤ q) : rounded (rounded q) = rounded q :=
  (representable_rounded hq).rounded_eq

/-! ### The error of rounding -/

private theorem abs_nearestEven_sub_le (q : Rat) : |nearestEven q - q| ≤ 1 / 2 := by
  have hlow := Int.floor_le q
  have hhigh := Int.lt_floor_add_one q
  rw [nearestEven_eq, abs_le]
  split_ifs with h₁ h₂
  · constructor <;> linarith
  · push_cast
    constructor <;> linarith
  · -- in the middle both neighbours are as near
    rcases Int.emod_two_eq_zero_or_one ⌊q⌋ with hm | hm
    · rw [hm]
      push_cast
      constructor <;> linarith
    · rw [hm]
      push_cast
      constructor <;> linarith

theorem abs_rounded_sub_le {q : Rat} (h : 2 ^ (-1022 : Int) ≤ q) :
    |rounded q - q| ≤ q / 2 ^ 53 := by
  have hq : 0 < q := (zpow_pos two_pos _).trans_le h
  have hm := le_magnitude hq h
  have hexp : exponent q = magnitude q - 52 := by
    rw [exponent]
    omega
  have hspacing : (0 : Rat) < 2 ^ exponent q := zpow_pos two_pos _
  have herror : rounded q - q = (nearestEven (q / 2 ^ exponent q) - q / 2 ^ exponent q) *
      2 ^ exponent q := by
    rw [sub_mul, div_mul_cancel₀ _ hspacing.ne', rounded, spacing_of_pos hq]
  calc |rounded q - q|
      = |nearestEven (q / 2 ^ exponent q) - q / 2 ^ exponent q| * 2 ^ exponent q := by
        rw [herror, abs_mul, abs_of_pos hspacing]
    _ ≤ 1 / 2 * 2 ^ exponent q := by
        gcongr
        exact abs_nearestEven_sub_le _
    _ = 2 ^ magnitude q / 2 ^ 53 := by
        rw [hexp, zpow_sub₀ two_ne_zero]
        norm_num
        ring
    _ ≤ q / 2 ^ 53 := by
        gcongr
        exact (magnitude_spec hq).1

/-! ### No overflow -/

theorem round_eq_finite_iff {q r : Rat} (hq : 0 ≤ q) :
    round q = finite r ↔ r = rounded q ∧ rounded q < limit := by
  rcases hq.eq_or_lt with rfl | hpos
  · have hzero : round 0 = finite 0 := rfl
    rw [rounded_zero, hzero, finite.injEq, eq_comm]
    exact (and_iff_left (zero_lt_one.trans_le (one_le_pow₀ one_le_two))).symm
  rw [round_of_ne_zero hpos.ne', Rat.abs_of_nonneg (rounded_nonneg hq), decide_eq_false (not_lt.mpr hq)]
  split_ifs with hz hlimit
  · rw [hz, zero, if_neg Bool.false_ne_true, finite.injEq, eq_comm]
    exact (and_iff_left (zero_lt_one.trans_le (one_le_pow₀ one_le_two))).symm
  · exact iff_of_false (fun h => by cases h) fun h => absurd h.2 (not_lt.mpr hlimit)
  · rw [finite.injEq, eq_comm]
    exact (and_iff_left (not_le.mp hlimit)).symm

theorem round_eq_finite {q : Rat} (hq : 0 ≤ q) (h : rounded q < limit) :
    round q = finite (rounded q) :=
  (round_eq_finite_iff hq).mpr ⟨rfl, h⟩

theorem rounded_le_two_pow {q : Rat} {n : Nat} (hq : 0 ≤ q) (h : q ≤ 2 ^ n) :
    rounded q ≤ 2 ^ n := by
  have hpower : Representable (2 ^ n) :=
    ⟨1, n, by decide, by omega, by rw [Nat.cast_one, one_mul, zpow_natCast]⟩
  calc rounded q ≤ rounded (2 ^ n) := rounded_mono hq h
    _ = 2 ^ n := hpower.rounded_eq

theorem rounded_lt_limit {q : Rat} {n : Nat} (hq : 0 ≤ q) (h : q ≤ 2 ^ n) (hn : n < 1024) :
    rounded q < limit :=
  (rounded_le_two_pow hq h).trans_lt (pow_lt_pow_right₀ one_lt_two hn)

theorem round_natCast {n : Nat} (h : n ≤ 2 ^ 53) : round n = finite n := by
  have hle : (n : Rat) ≤ 2 ^ 53 := by exact_mod_cast h
  rw [round_eq_finite n.cast_nonneg (rounded_lt_limit n.cast_nonneg hle (by decide)),
    rounded_natCast h]

private theorem abs_eq_abs (q : Rat) : q.abs = |q| := by
  rcases le_total 0 q with h | h
  · rw [Rat.abs_of_nonneg h, abs_of_nonneg h]
  · rw [Rat.abs_of_nonpos h, abs_of_nonpos h]

private theorem abs_rounded_lt_limit {q : Rat} (h : |q| < 2 ^ 1023) : |rounded q| < limit := by
  rcases eq_or_ne q 0 with rfl | h0
  · rw [rounded_zero, abs_zero]
    exact zero_lt_one.trans_le (one_le_pow₀ one_le_two)
  have hspacing : 0 < spacing q := zpow_pos two_pos _
  have hsmall : spacing q ≤ 2 ^ 1023 := by
    have hm := magnitude_lt (abs_pos.mpr h0) (e := (1023 : Nat)) (by rwa [zpow_natCast])
    rw [spacing, abs_eq_abs, ← zpow_natCast]
    apply zpow_le_zpow_right₀ one_le_two
    omega
  have herror : rounded q - q = (nearestEven (q / spacing q) - q / spacing q) * spacing q := by
    rw [sub_mul, div_mul_cancel₀ _ hspacing.ne', rounded]
  have hhalf := abs_nearestEven_sub_le (q / spacing q)
  calc |rounded q| ≤ |q| + |rounded q - q| := by
        have := abs_add_le q (rounded q - q)
        rwa [add_sub_cancel] at this
    _ ≤ |q| + 1 / 2 * spacing q := by
        rw [herror, abs_mul, abs_of_pos hspacing]
        gcongr
    _ < 2 ^ 1023 + 2 ^ 1023 := by
        generalize (2 : Rat) ^ 1023 = bound at h hsmall ⊢
        linarith
    _ = limit := by rw [limit, ← two_mul, ← pow_succ']

end Binary64

namespace Number

/-- Only a number that is out of range is not rounded. -/
theorem exists_nearest_eq_ok {q : Rat} (h : |q| < 2 ^ 1023) : ∃ x, nearest q = .ok x := by
  have hlimit := Binary64.abs_rounded_lt_limit h
  rw [nearest]
  rcases eq_or_ne q 0 with rfl | h0
  · exact ⟨_, rfl⟩
  rw [Binary64.round_of_ne_zero h0, Binary64.abs_eq_abs, if_neg (not_le.mpr hlimit)]
  split_ifs
  · cases decide (q < 0) <;> exact ⟨_, rfl⟩
  · exact ⟨_, rfl⟩

theorem nearest_of_nonneg {q : Rat} (hq : 0 ≤ q) (h : Binary64.rounded q < Binary64.limit) :
    nearest q = .ok (.finite (Binary64.rounded q)) := by
  rw [nearest, Binary64.round_eq_finite hq h]

theorem toBinary64_natCast {n : Nat} (h : n ≤ 2 ^ 53) :
    (whole n).toBinary64 = .ok (.finite n) := by
  rw [toBinary64, Int.cast_natCast, nearest, Binary64.round_natCast h]

/-! ### Comparisons with whole numbers -/

@[simp] theorem whole_lt_finite {n : Int} {q : Rat} :
    (whole n).lt (approx (.finite q)) = true ↔ n < q := by
  simp [lt, place, exact, Binary64.exact]

@[simp] theorem finite_lt_whole {q : Rat} {n : Int} :
    (approx (.finite q)).lt (whole n) = true ↔ q < n := by
  simp [lt, place, exact, Binary64.exact]

@[simp] theorem finite_le_whole {q : Rat} {n : Int} :
    (approx (.finite q)).le (whole n) = true ↔ q ≤ n := by
  simp [le, place, exact, Binary64.exact]

@[simp] theorem whole_le_finite {q : Rat} {n : Int} :
    (whole n).le (approx (.finite q)) = true ↔ n ≤ q := by
  simp [le, place, exact, Binary64.exact]

@[simp] theorem finite_same_whole {q : Rat} {n : Int} :
    (approx (.finite q)).same (whole n) = true ↔ q = n := by
  rw [same, Bool.and_eq_true, finite_le_whole, whole_le_finite, le_antisymm_iff]

@[simp] theorem whole_same_finite {n : Int} {q : Rat} :
    (whole n).same (approx (.finite q)) = true ↔ n = q := by
  rw [same, Bool.and_eq_true, finite_le_whole, whole_le_finite, le_antisymm_iff]

theorem infinite_same_whole (negative : Bool) (n : Int) :
    (approx (.infinite negative)).same (whole n) = false := by
  cases negative <;> simp [same, le, place]

end Number

/-! ### Beats -/

theorem Ticks.toBeats_zero : toBeats 0 = .ok (Number.approx (.finite 0)) := by
  rw [toBeats, zero_div]
  rfl

theorem Ticks.toBeats_perBeat : toBeats perBeat = .ok (Number.approx (.finite 1)) := by
  decide +kernel

theorem Ticks.toBeats_of_nonneg {t : Rat} (ht : 0 ≤ t) {n : Nat} (h : t / perBeat ≤ 2 ^ n)
    (hn : n < 1024) : toBeats t = .ok (Number.approx (.finite (Binary64.rounded (t / perBeat)))) := by
  have hbeats : 0 ≤ t / perBeat := div_nonneg ht (by decide)
  change (do return Number.approx (← Number.nearest (t / perBeat))) = _
  rw [Number.nearest_of_nonneg hbeats (Binary64.rounded_lt_limit hbeats h hn)]
  rfl

/-- Beats that are in the range of binary64 numbers are rounded. -/
theorem Ticks.yields_toBeats (q : Rat) : (toBeats q : Except Failure Number).Yields (fun _ => True)
    fun e => e = .overflow ∧ perBeat * 2 ^ 1023 ≤ |q| := by
  have hpos : (0 : Rat) < perBeat := by decide
  by_cases h : |q / perBeat| < 2 ^ 1023
  · obtain ⟨x, hx⟩ := Number.exists_nearest_eq_ok h
    change (Number.nearest (q / perBeat) >>= _).Yields _ _
    rw [hx]
    exact .ok trivial
  · have hbound : perBeat * 2 ^ 1023 ≤ |q| := by
      rwa [not_lt, abs_div, abs_of_pos hpos, le_div_iff₀' hpos] at h
    have hnearest : (Number.nearest (q / perBeat)).Yields (fun _ => True) (· = .overflow) := by
      rw [Number.nearest]
      split
      · exact .error rfl
      · exact .ok trivial
    exact (hnearest.mono (fun _ h => h) fun _ he => ⟨he, hbound⟩).bind fun _ _ => .ok trivial

end LeadSheet
