import LeadSheet.Number.Timebase
import LeadSheet.Proofs.Accompaniment.Placement
import LeadSheet.Proofs.Number.Quotient

/-!
Arithmetic that is not rounded. Every number but the infinities and NaN stands for a rational, and
comparisons tell the order of the rationals. The operations on whole numbers and ratios give what
they give in the rationals; those on approximations do where it is representable.
-/
namespace LeadSheet.Number

/-- A number stands for a rational: it is neither infinite nor NaN. -/
def StandsFor (a : Number) (q : Rat) : Prop := a.place = some (0, q)

/-- An operation succeeds, with a number that stands for a rational. -/
def Unrounded (x : Except Failure Number) (q : Rat) : Prop := ∃ a, x = .ok a ∧ a.StandsFor q

instance (a : Number) (q : Rat) : Decidable (a.StandsFor q) :=
  inferInstanceAs (Decidable (a.place = some (0, q)))

instance (x : Except Failure Number) (q : Rat) : Decidable (Unrounded x q) :=
  match x with
  | .error _ => isFalse fun ⟨_, h, _⟩ => by cases h
  | .ok a => decidable_of_iff (a.StandsFor q)
      ⟨fun h => ⟨a, rfl, h⟩, fun ⟨_, h, hq⟩ => by rwa [Except.ok.inj h]⟩

theorem Unrounded.of_bind {α : Type} {x : Except Failure α} {f : α → Except Failure Number} {q : Rat}
    (h : Unrounded (x >>= f) q) : ∃ a, x = .ok a ∧ Unrounded (f a) q := by
  obtain ⟨b, hb, hq⟩ := h
  obtain ⟨a, ha, hb⟩ := Except.bind_eq_ok_iff.mp hb
  exact ⟨a, ha, b, hb, hq⟩

namespace StandsFor
variable {a b : Number} {p q : Rat}

theorem exact_eq (h : a.StandsFor p) : a.exact = p := by
  rw [StandsFor, place.eq_def] at h
  split at h
  · cases h
  · next negative => cases negative <;> cases h
  · exact (Prod.mk.inj (Option.some.inj h)).2

theorem exact (h : a.StandsFor p) : a.StandsFor a.exact := by rwa [h.exact_eq]

theorem lt_iff (ha : a.StandsFor p) (hb : b.StandsFor q) : a.lt b = true ↔ p < q := by
  rw [lt, ha, hb]
  simp

theorem le_iff (ha : a.StandsFor p) (hb : b.StandsFor q) : a.le b = true ↔ p ≤ q := by
  rw [le, ha, hb]
  simp

theorem same_iff (ha : a.StandsFor p) (hb : b.StandsFor q) : a.same b = true ↔ p = q := by
  rw [same, Bool.and_eq_true, ha.le_iff hb, hb.le_iff ha, le_antisymm_iff]

/-- The smaller of two numbers stands for the smaller of their rationals. -/
theorem least (ha : a.StandsFor p) (hb : b.StandsFor q) :
    StandsFor (Timebase.least a b) (min p q) := by
  rw [Timebase.least]
  split
  · next h =>
    rw [min_eq_right ((hb.lt_iff ha).mp h).le]
    exact hb
  · next h =>
    rw [min_eq_left (not_lt.mp fun hlt => h ((hb.lt_iff ha).mpr hlt))]
    exact ha

theorem toInt_eq (h : a.StandsFor p) (rule : Rat → Int) : a.toInt rule = .ok (rule p) := by
  rw [toInt.eq_def]
  split
  · cases h
  · next negative => cases negative <;> cases h
  · rw [h.exact_eq]

theorem toRat_eq (h : a.StandsFor p) : a.toRat = .ok p := by
  rw [toRat.eq_def]
  split
  · cases h
  · next negative => cases negative <;> cases h
  · rw [h.exact_eq]

end StandsFor

theorem Exact.standsFor {a : Number} (h : a.Exact) : a.StandsFor a.exact := by
  cases h <;> rfl

theorem standsFor_finite (q : Rat) : (approx (.finite q)).StandsFor q := rfl

/-! ### Operations on whole numbers and ratios -/

section Exact
variable {a b : Number}

theorem Exact.add (ha : a.Exact) (hb : b.Exact) :
    ∃ c, a.add b = .ok c ∧ c.Exact ∧ c.exact = a.exact + b.exact := by
  cases ha <;> cases hb
  · exact ⟨_, rfl, .whole _, Int.cast_add _ _⟩
  all_goals exact ⟨_, rfl, .ratio _, rfl⟩

theorem Exact.sub (ha : a.Exact) (hb : b.Exact) :
    ∃ c, a.sub b = .ok c ∧ c.Exact ∧ c.exact = a.exact - b.exact := by
  obtain ⟨c, hc⟩ : ∃ c, a.sub b = .ok c := by cases ha <;> cases hb <;> exact ⟨_, rfl⟩
  exact ⟨c, hc, exact_sub ha hb hc⟩

theorem Exact.mul (ha : a.Exact) (hb : b.Exact) :
    ∃ c, a.mul b = .ok c ∧ c.Exact ∧ c.exact = a.exact * b.exact := by
  cases ha <;> cases hb
  · exact ⟨_, rfl, .whole _, Int.cast_mul _ _⟩
  all_goals exact ⟨_, rfl, .ratio _, rfl⟩

theorem Exact.isZero_eq_false (ha : a.Exact) (hne : a.exact ≠ 0) : a.isZero = false := by
  cases ha with
  | whole n => exact decide_eq_false fun h => hne (by rw [Number.exact, h, Int.cast_zero])
  | ratio q => exact decide_eq_false hne

theorem Exact.floorDiv (ha : a.Exact) (hb : b.Exact) (hne : b.exact ≠ 0) :
    a.floorDiv b = .ok (.whole ⌊a.exact / b.exact⌋) := by
  have hzero := hb.isZero_eq_false hne
  cases ha <;> cases hb <;> exact if_neg (ne_true_of_eq_false hzero)

/-- A ratio stays one when it is divided. -/
theorem Exact.ratio_div (hb : b.Exact) (hne : b.exact ≠ 0) (p : Rat) :
    (Number.ratio p).div b = .ok (.ratio (p / b.exact)) := by
  have hzero := hb.isZero_eq_false hne
  cases hb <;> exact if_neg (ne_true_of_eq_false hzero)

/-- The distance of two numbers. -/
theorem Exact.distance (ha : a.Exact) (hb : b.Exact) :
    Unrounded (Timebase.distance a b) |a.exact - b.exact| := by
  obtain ⟨d, hd, hexact, heq⟩ := ha.sub hb
  have hlt : d.lt (.whole 0) = true ↔ d.exact < 0 :=
    (hexact.standsFor.lt_iff (Exact.whole 0).standsFor).trans (by rw [Number.exact, Int.cast_zero])
  have hdistance : Timebase.distance a b =
      (a.sub b >>= fun d => if d.lt (.whole 0) then Number.sub (.whole 0) d else .ok d) := rfl
  rw [hdistance, hd, ← heq]
  dsimp only [bind, Except.bind]
  split_ifs with hneg
  · obtain ⟨d', hd', hexact', heq'⟩ := (Exact.whole 0).sub hexact
    refine ⟨d', hd', ?_⟩
    rw [abs_of_neg (hlt.mp hneg), ← zero_sub, ← Int.cast_zero]
    exact heq' ▸ hexact'.standsFor
  · rw [abs_of_nonneg (not_lt.mp (hlt.not.mp hneg))]
    exact ⟨d, rfl, hexact.standsFor⟩

/-- Whole numbers that are not too large can be divided by a power of two. -/
theorem Exact.div_twoPow (ha : a.Exact) {k : Nat} (hk : k ≤ 1074) (h : |a.exact| ≤ 2 ^ 53) :
    Unrounded (a.div (.whole (2 ^ k))) (a.exact / 2 ^ k) := by
  have hne : (2 ^ k : Int) ≠ 0 := pow_ne_zero k two_ne_zero
  have hcast : ((2 ^ k : Int) : Rat) = 2 ^ k := by push_cast; rfl
  cases ha with
  | ratio q =>
    have hdivisor : (Number.whole (2 ^ k)).exact = 2 ^ k := hcast
    rw [← hdivisor]
    exact ⟨_, (Exact.whole _).ratio_div (hdivisor ▸ pow_ne_zero k two_ne_zero) q, rfl⟩
  | whole m =>
    have hm : |(m : Rat)| = (m.natAbs : Rat) := by
      rw [← Int.cast_abs, Int.abs_eq_natAbs, Int.cast_natCast]
    have hbound : (m.natAbs : Rat) ≤ 2 ^ 53 := hm ▸ h
    have hdiv : (Number.whole m).div (.whole (2 ^ k)) = wholeQuotient m (2 ^ k) := if_neg hne
    rw [hdiv, wholeQuotient]
    by_cases h0 : m = 0
    · rw [if_pos h0, decide_eq_false (not_lt.mpr (by positivity)), h0]
      refine ⟨_, rfl, ?_⟩
      rw [Number.exact, Int.cast_zero, zero_div]
      exact standsFor_finite 0
    · have habs : |(m : Rat) / 2 ^ k| = m.natAbs * 2 ^ (-k : Int) := by
        rw [abs_div, hm, abs_of_pos (pow_pos two_pos k), zpow_neg, zpow_natCast, div_eq_mul_inv]
      have hrep : Binary64.Representable |(m : Rat) / 2 ^ k| := by
        rw [habs]
        exact ⟨m.natAbs, -k, by exact_mod_cast hbound, by omega, rfl⟩
      have hlt : |(m : Rat) / 2 ^ k| < Binary64.limit := by
        calc |(m : Rat) / 2 ^ k| = m.natAbs / 2 ^ k := by
              rw [abs_div, hm, abs_of_pos (pow_pos two_pos k)]
          _ ≤ m.natAbs := div_le_self (Nat.cast_nonneg _) (one_le_pow₀ one_le_two)
          _ ≤ 2 ^ 53 := hbound
          _ < Binary64.limit := pow_lt_pow_right₀ one_lt_two (by decide)
      rw [if_neg h0, hcast, nearest, hrep.round_eq hlt]
      exact ⟨_, rfl, standsFor_finite _⟩

end Exact

end LeadSheet.Number
