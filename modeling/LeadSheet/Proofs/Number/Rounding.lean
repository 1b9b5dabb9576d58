import LeadSheet.Proofs.Outcome
import LeadSheet.Timeline.Ticks
import Mathlib.Algebra.Order.Field.Power
import Mathlib.Algebra.Order.Floor.Ring
import Mathlib.Data.Nat.Log
import Mathlib.Data.Rat.Floor
import Mathlib.Tactic.Linarith
import Mathlib.Tactic.Positivity
import Mathlib.Tactic.Ring

/-!
Rounding to binary64 numbers keeps the order of rationals that are not negative. Where two rationals
have different magnitudes, a power of two lies between them, and rounding passes none.
-/
namespace LeadSheet
namespace Binary64

/-! ### The nearest integer -/

theorem nearestEven_eq (q : Rat) :
    nearestEven q = if q - ⌊q⌋ < 1 / 2 then ⌊q⌋ else if 1 / 2 < q - ⌊q⌋ then ⌊q⌋ + 1
      else ⌊q⌋ + ⌊q⌋ % 2 :=
  rfl

private theorem floor_le_nearestEven (q : Rat) : ⌊q⌋ ≤ nearestEven q := by
  rw [nearestEven_eq]
  split_ifs <;> omega

private theorem nearestEven_le_floor_add_one (q : Rat) : nearestEven q ≤ ⌊q⌋ + 1 := by
  rw [nearestEven_eq]
  split_ifs <;> omega

@[simp] theorem nearestEven_intCast (n : Int) : nearestEven n = n := by
  simp [nearestEven_eq]

theorem nearestEven_mono {p q : Rat} (h : p ≤ q) : nearestEven p ≤ nearestEven q := by
  rcases (Int.floor_mono h).lt_or_eq with hlt | heq
  · calc nearestEven p ≤ ⌊p⌋ + 1 := nearestEven_le_floor_add_one p
      _ ≤ ⌊q⌋ := hlt
      _ ≤ nearestEven q := floor_le_nearestEven q
  · rw [nearestEven_eq, nearestEven_eq, heq]
    split_ifs
    all_goals first | omega | linarith

/-! ### Magnitudes and spacings -/

/-- A fraction lies between powers of two that are told by the logarithms of its parts. -/
theorem zpow_le_div_and_div_lt_zpow {n d : Nat} (hn : n ≠ 0) (hd : d ≠ 0) :
    (2 : Rat) ^ ((n.log2 : Int) - d.log2 - 1) ≤ (n : Rat) / d ∧
      (n : Rat) / d < 2 ^ ((n.log2 : Int) - d.log2 + 1) := by
  have hpos : (0 : Rat) < d := Nat.cast_pos.mpr (Nat.pos_of_ne_zero hd)
  have hnlow : (2 : Rat) ^ (n.log2 : Int) ≤ n := by exact_mod_cast Nat.log2_self_le hn
  have hnhigh : (n : Rat) < 2 ^ ((n.log2 : Int) + 1) := by exact_mod_cast Nat.lt_log2_self
  have hdlow : (2 : Rat) ^ (d.log2 : Int) ≤ d := by exact_mod_cast Nat.log2_self_le hd
  have hdhigh : (d : Rat) ≤ 2 ^ ((d.log2 : Int) + 1) := by exact_mod_cast Nat.lt_log2_self.le
  constructor
  · rw [le_div_iff₀ hpos]
    calc (2 : Rat) ^ ((n.log2 : Int) - d.log2 - 1) * d
        ≤ 2 ^ ((n.log2 : Int) - d.log2 - 1) * 2 ^ ((d.log2 : Int) + 1) := by gcongr
      _ = 2 ^ (n.log2 : Int) := by
        rw [← zpow_add₀ two_ne_zero]
        congr 1
        ring
      _ ≤ n := hnlow
  · rw [div_lt_iff₀ hpos]
    calc (n : Rat) < 2 ^ ((n.log2 : Int) + 1) := hnhigh
      _ = 2 ^ ((n.log2 : Int) - d.log2 + 1) * 2 ^ (d.log2 : Int) := by
        rw [← zpow_add₀ two_ne_zero]
        congr 1
        ring
      _ ≤ 2 ^ ((n.log2 : Int) - d.log2 + 1) * d := by gcongr

theorem magnitude_spec {q : Rat} (hq : 0 < q) :
    (2 : Rat) ^ magnitude q ≤ q ∧ q < (2 : Rat) ^ (magnitude q + 1) := by
  have hnum : 0 < q.num := Rat.num_pos.mpr hq
  have hval : (q.num.natAbs : Rat) / q.den = q := by
    rw [Nat.cast_natAbs, abs_of_pos hnum, Rat.num_div_den]
  have hbounds := zpow_le_div_and_div_lt_zpow (Int.natAbs_ne_zero.mpr hnum.ne') q.den_nz
  rw [hval] at hbounds
  rw [magnitude]
  split_ifs with hg
  · exact ⟨hg, hbounds.2⟩
  · rw [sub_add_cancel]
    exact ⟨hbounds.1, not_le.mp hg⟩

private theorem magnitude_mono {p q : Rat} (hp : 0 < p) (h : p ≤ q) :
    magnitude p ≤ magnitude q := by
  have hlt : (2 : Rat) ^ magnitude p < 2 ^ (magnitude q + 1) :=
    (magnitude_spec hp).1.trans_lt (h.trans_lt (magnitude_spec (hp.trans_le h)).2)
  have := (zpow_lt_zpow_iff_right₀ one_lt_two).mp hlt
  omega

/-- The exponent of the spacing around a rational. -/
def exponent (q : Rat) : Int := max (magnitude q - 52) (-1074)

theorem spacing_of_pos {q : Rat} (hq : 0 < q) : spacing q = 2 ^ exponent q := by
  rw [spacing, Rat.abs_of_nonneg hq.le, exponent]

/-! ### Rounding -/

/-- The multiple of the spacing that is nearest to a rational. -/
def rounded (q : Rat) : Rat := nearestEven (q / spacing q) * spacing q

@[simp] theorem rounded_zero : rounded 0 = 0 := by
  have h : nearestEven 0 = 0 := nearestEven_intCast 0
  rw [rounded, zero_div, h, Int.cast_zero, zero_mul]

/-- The nearest integer to a multiple of a power of two over a spacing that is no greater. -/
theorem nearestEven_mul_zpow_div {e s : Int} (h : s ≤ e) (n : Int) :
    (nearestEven (n * (2 : Rat) ^ e / 2 ^ s) : Rat) = n * 2 ^ e / 2 ^ s := by
  obtain ⟨k, rfl⟩ := Int.le.dest h
  have hz : n * (2 : Rat) ^ (s + k) / 2 ^ s = ((n * 2 ^ k : Int) : Rat) := by
    rw [zpow_add₀ two_ne_zero, mul_left_comm, mul_div_cancel_left₀ _ (zpow_ne_zero s two_ne_zero),
      zpow_natCast]
    push_cast
    rfl
  rw [hz, nearestEven_intCast]

private theorem nearestEven_zpow_div {e s : Int} (h : s ≤ e) :
    (nearestEven ((2 : Rat) ^ e / 2 ^ s) : Rat) = 2 ^ e / 2 ^ s := by
  simpa using nearestEven_mul_zpow_div h 1

private theorem rounded_le_zpow {q : Rat} {e : Int} (hq : 0 < q) (h : q ≤ 2 ^ e)
    (hs : exponent q ≤ e) :
    rounded q ≤ 2 ^ e := by
  have hpos : (0 : Rat) < 2 ^ exponent q := zpow_pos two_pos _
  have hle : nearestEven (q / 2 ^ exponent q) ≤ nearestEven (2 ^ e / 2 ^ exponent q) :=
    nearestEven_mono (by gcongr)
  rw [rounded, spacing_of_pos hq, ← le_div_iff₀ hpos, ← nearestEven_zpow_div hs]
  exact Int.cast_le.mpr hle

private theorem zpow_le_rounded {q : Rat} {e : Int} (hq : 0 < q) (h : 2 ^ e ≤ q)
    (hs : exponent q ≤ e) :
    2 ^ e ≤ rounded q := by
  have hpos : (0 : Rat) < 2 ^ exponent q := zpow_pos two_pos _
  have hle : nearestEven (2 ^ e / 2 ^ exponent q) ≤ nearestEven (q / 2 ^ exponent q) :=
    nearestEven_mono (by gcongr)
  rw [rounded, spacing_of_pos hq, ← div_le_iff₀ hpos, ← nearestEven_zpow_div hs]
  exact Int.cast_le.mpr hle

theorem rounded_nonneg {q : Rat} (hq : 0 ≤ q) : 0 ≤ rounded q := by
  have hs : 0 ≤ spacing q := (zpow_pos two_pos _).le
  have hn : nearestEven 0 ≤ nearestEven (q / spacing q) := nearestEven_mono (by positivity)
  have h0 : nearestEven 0 = 0 := nearestEven_intCast 0
  exact mul_nonneg (Int.cast_nonneg (h0 ▸ hn)) hs

theorem rounded_mono {p q : Rat} (hp : 0 ≤ p) (h : p ≤ q) : rounded p ≤ rounded q := by
  rcases hp.eq_or_lt with rfl | hp
  · rw [rounded_zero]
    exact rounded_nonneg h
  have hq : 0 < q := hp.trans_le h
  have hm : magnitude p ≤ magnitude q := magnitude_mono hp h
  by_cases hexp : exponent p = exponent q
  · have hpos : (0 : Rat) < 2 ^ exponent q := zpow_pos two_pos _
    have hle : nearestEven (p / 2 ^ exponent q) ≤ nearestEven (q / 2 ^ exponent q) :=
      nearestEven_mono (by gcongr)
    rw [rounded, rounded, spacing_of_pos hp, spacing_of_pos hq, hexp]
    have hcast : (nearestEven (p / 2 ^ exponent q) : Rat) ≤ nearestEven (q / 2 ^ exponent q) :=
      Int.cast_le.mpr hle
    gcongr
  · -- the power of two at the magnitude of the greater one lies between the two
    have hlt : exponent p < exponent q ∧ exponent q ≤ magnitude q ∧ magnitude p < magnitude q := by
      simp only [exponent] at hexp ⊢
      omega
    have hbetween : p ≤ 2 ^ magnitude q :=
      (magnitude_spec hp).2.le.trans (zpow_le_zpow_right₀ one_le_two (by omega))
    calc rounded p ≤ 2 ^ magnitude q := rounded_le_zpow hp hbetween (by omega)
      _ ≤ rounded q := zpow_le_rounded hq (magnitude_spec hq).1 (by omega)

theorem round_of_ne_zero {q : Rat} (h : q ≠ 0) :
    round q = if rounded q = 0 then zero (q < 0)
      else if limit ≤ (rounded q).abs then infinite (q < 0) else finite (rounded q) :=
  if_neg h

theorem round_of_nonneg {q : Rat} (hq : 0 ≤ q) :
    round q = finite (rounded q) ∨ ∃ negative, round q = infinite negative := by
  by_cases h0 : q = 0
  · rw [h0, rounded_zero]
    exact .inl rfl
  rw [round_of_ne_zero h0]
  split_ifs with hr
  · rw [hr, zero, decide_eq_false (not_lt.mpr hq)]
    exact .inl rfl
  · exact .inr ⟨_, rfl⟩
  · exact .inl rfl

end Binary64

/-! ### Beats -/

theorem Number.nearest_eq_ok {q : Rat} {x : Binary64} (hq : 0 ≤ q) (h : nearest q = .ok x) :
    x = .finite (Binary64.rounded q) := by
  rw [nearest] at h
  rcases Binary64.round_of_nonneg hq with hr | ⟨negative, hr⟩
  · rw [hr] at h
    exact (Except.ok.inj h).symm
  · rw [hr] at h
    cases h

/-- The beats of ticks that follow each other do so as well. -/
theorem Ticks.toBeats_mono {s t : Rat} {a b : Number} (hs : 0 ≤ s) (hst : s ≤ t)
    (ha : toBeats s = .ok a) (hb : toBeats t = .ok b) : a.le b = true := by
  have hpos : (0 : Rat) ≤ perBeat := by decide
  have hdiv : s / perBeat ≤ t / perBeat := div_le_div_of_nonneg_right hst hpos
  have hs' : 0 ≤ s / perBeat := div_nonneg hs hpos
  obtain ⟨x, hx, ha⟩ := Except.bind_eq_ok_iff.mp ha
  obtain ⟨y, hy, hb⟩ := Except.bind_eq_ok_iff.mp hb
  obtain rfl := Except.pure_eq_ok_iff.mp ha
  obtain rfl := Except.pure_eq_ok_iff.mp hb
  rw [Number.nearest_eq_ok hs' hx, Number.nearest_eq_ok (hs'.trans hdiv) hy]
  simpa [Number.le, Number.place, Number.exact, Binary64.exact] using
    Binary64.rounded_mono hs' hdiv

end LeadSheet
