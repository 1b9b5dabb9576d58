import LeadSheet.Proofs.Number.Unrounded
import Mathlib.Order.Monotone.Basic

/-!
The ladder of length multipliers. A step leads from one rung to the next one or back, also across the
default length in the middle, and so a run of steps leads as many rungs up as there are more steps up
than down in it.
-/
namespace LeadSheet

/-- The order of numbers goes one way only. -/
theorem Number.lt_asymm {a b : Number} (h : lt a b = true) : lt b a = false := by
  rw [lt] at h ⊢
  cases ha : a.place with
  | none =>
    rw [ha] at h
    cases h
  | some x =>
    cases hb : b.place with
    | none => rfl
    | some y =>
      obtain ⟨i, p⟩ := x
      obtain ⟨j, q⟩ := y
      rw [ha, hb] at h
      simp only [Bool.or_eq_true, Bool.and_eq_true, decide_eq_true_eq, beq_iff_eq] at h
      simp only [Bool.or_eq_false_iff, Bool.and_eq_false_imp, decide_eq_false_iff_not, beq_iff_eq]
      rcases h with hi | ⟨rfl, hq⟩
      · exact ⟨by omega, fun hj => by omega⟩
      · exact ⟨by omega, fun _ => not_lt.mpr hq.le⟩

namespace Ticks
open Number (Exact StandsFor)

/-! ### Multipliers by their values -/

private theorem one_standsFor : StandsFor 1 1 := rfl

private theorem two_standsFor : StandsFor 2 2 := rfl

private theorem natCast_standsFor (n : Nat) : StandsFor (.whole n) n := by
  rw [← Int.cast_natCast]
  rfl

section
variable {c : Number} {q : Rat}

/-- A multiplier from two upwards is stepped itself. -/
theorem step_of_two_le (hc : c.StandsFor q) (hq : 2 ≤ q) (longer doubling : Bool) :
    step (some c) longer doubling =
      if longer then (stepUp doubling c).map some
      else (stepDown doubling c).map fun down => if Number.lt 1 down then some down else none := by
  have hone : c.same 1 = false := by
    rw [← Bool.not_eq_true, hc.same_iff one_standsFor]
    exact (one_lt_two.trans_le hq).ne'
  have htwo : Number.le 2 c = true := (two_standsFor.le_iff hc).mpr hq
  rw [step]
  simp only [Option.getD_some, hone, htwo, if_true]
  cases longer <;> rfl

/-- Of a multiplier below one, the integer nearest to its reciprocal is stepped, the other way
round. -/
theorem step_of_lt_one {divisor : Int} (hc : c.StandsFor q) (hpos : 0 < q) (hq : q < 1)
    (hdivisor : Binary64.nearestEven (1 / q) = divisor) (longer doubling : Bool) :
    step (some c) longer doubling =
      if longer then do
        let down ← stepDown doubling (.whole divisor)
        if Number.lt 1 down then return some (← unitFraction down) else return none
      else do return some (← unitFraction (← stepUp doubling (.whole divisor))) := by
  have hone : c.same 1 = false := by
    rw [← Bool.not_eq_true, hc.same_iff one_standsFor]
    exact hq.ne
  have htwo : Number.le 2 c = false := by
    rw [← Bool.not_eq_true, two_standsFor.le_iff hc]
    exact not_le.mpr (hq.trans one_lt_two)
  rw [step]
  simp only [Option.getD_some, hone, htwo, hc.toRat_eq]
  rw [if_neg Bool.false_ne_true, if_neg Bool.false_ne_true]
  dsimp only [bind, Except.bind]
  rw [if_neg hpos.ne', hdivisor]

end

private theorem unitFraction_natCast {n : Nat} (hn : 0 < n) :
    unitFraction (.whole n) = .ok (.ratio (1 / (n : Rat))) := by
  have hzero : (Number.whole n).isZero = false := decide_eq_false (by omega)
  rw [unitFraction, hzero, (natCast_standsFor n).toRat_eq]
  rfl

/-! ### The ladder -/

/-- What the default length is multiplied or divided by, that many rungs away from it: the numbers from
one upwards, or the powers of two. -/
def factor (doubling : Bool) (n : Nat) : Nat := if doubling then 2 ^ n else n + 1

/-- The ladder of lengths: the default one, multiples of it above and fractions below. -/
def rung (doubling : Bool) : Int → Option Number
  | .ofNat 0 => none
  | .ofNat (n + 1) => some (.whole (factor doubling (n + 1)))
  | .negSucc n => some (.ratio (1 / (factor doubling (n + 1) : Rat)))

section
variable (doubling : Bool) (n : Nat)

private theorem factor_zero : factor doubling 0 = 1 := by
  cases doubling <;> rfl

private theorem factor_strictMono : StrictMono (factor doubling) := by
  apply strictMono_nat_of_lt_succ
  intro n
  cases doubling with
  | false => exact Nat.lt_succ_self _
  | true => exact Nat.pow_lt_pow_succ (by decide)

private theorem factor_pos : 0 < factor doubling n := by
  cases doubling with
  | false => exact Nat.succ_pos n
  | true => exact Nat.two_pow_pos n

private theorem one_lt_factor : 1 < factor doubling (n + 1) := by
  have h := factor_strictMono doubling (Nat.zero_lt_succ n)
  rwa [factor_zero] at h

private theorem stepUp_factor :
    stepUp doubling (.whole (factor doubling n)) = .ok (.whole (factor doubling (n + 1))) := by
  cases doubling with
  | false => rfl
  | true =>
    change Except.ok (Number.whole (((2 ^ n : Nat) : Int) * 2)) =
      .ok (.whole ((2 ^ (n + 1) : Nat) : Int))
    rw [Nat.pow_succ, Nat.cast_mul]
    rfl

private theorem stepDown_factor :
    stepDown doubling (.whole (factor doubling (n + 1))) = .ok (.whole (factor doubling n)) := by
  cases doubling with
  | false =>
    change Except.ok (Number.whole (((n + 1 + 1 : Nat) : Int) - 1)) =
      .ok (.whole ((n + 1 : Nat) : Int))
    rw [Nat.cast_succ (n + 1), Int.add_sub_cancel]
  | true =>
    have htwo : (Number.whole 2).exact = 2 := rfl
    have hhalf : (Number.whole (factor true (n + 1))).exact / 2 = ((factor true n : Int) : Rat) := by
      simp [Number.exact, factor, pow_succ]
    have hdiv := (Exact.whole (factor true (n + 1))).floorDiv (.whole 2) (htwo ▸ two_ne_zero)
    rw [htwo, hhalf, Int.floor_intCast] at hdiv
    exact hdiv

private theorem two_le_factor : (2 : Rat) ≤ factor doubling (n + 1) := by
  exact_mod_cast one_lt_factor doubling n

private theorem one_lt_whole_factor : Number.lt 1 (.whole (factor doubling (n + 1))) = true := by
  rw [one_standsFor.lt_iff (natCast_standsFor _), Nat.one_lt_cast]
  exact one_lt_factor doubling n

/-- A rung that is not below the default length, in the form that a step down has. -/
theorem rung_natCast : rung doubling n =
    if Number.lt 1 (.whole (factor doubling n)) then some (.whole (factor doubling n)) else none := by
  cases n with
  | zero =>
    rw [factor_zero]
    rfl
  | succ n =>
    rw [if_pos (one_lt_whole_factor doubling n)]
    rfl

/-- A rung that is not above the default length, in the form that a step up from a fraction has. -/
theorem rung_neg : rung doubling (-n) =
    if Number.lt 1 (.whole (factor doubling n)) then some (.ratio (1 / (factor doubling n : Rat)))
    else none := by
  cases n with
  | zero =>
    rw [factor_zero]
    rfl
  | succ n =>
    rw [if_pos (one_lt_whole_factor doubling n)]
    rfl

end

section
variable (doubling : Bool)

/-- A fraction on the ladder is stepped by the integer that divides the default length in it. -/
theorem step_fraction (n : Nat) (longer : Bool) :
    step (rung doubling (.negSucc n)) longer doubling =
      if longer then do
        let down ← stepDown doubling (.whole (factor doubling (n + 1)))
        if Number.lt 1 down then return some (← unitFraction down) else return none
      else do return some (← unitFraction (← stepUp doubling (.whole (factor doubling (n + 1))))) := by
  have hone : (1 : Rat) < factor doubling (n + 1) := one_lt_two.trans_le (two_le_factor doubling n)
  have hpos := one_pos.trans hone
  have hfraction : StandsFor (.ratio (1 / (factor doubling (n + 1) : Rat)))
      (1 / (factor doubling (n + 1) : Rat)) := rfl
  have hdivisor : Binary64.nearestEven (1 / (1 / (factor doubling (n + 1) : Rat))) =
      factor doubling (n + 1) := by
    rw [one_div_one_div]
    exact Binary64.nearestEven_intCast _
  exact step_of_lt_one hfraction (one_div_pos.mpr hpos) ((div_lt_one hpos).mpr hone) hdivisor longer
    doubling

/-- A step up leads to the next rung. -/
theorem step_rung_longer (k : Int) :
    step (rung doubling k) true doubling = .ok (rung doubling (k + 1)) := by
  cases k with
  | ofNat n =>
    cases n with
    | zero => cases doubling <;> rfl
    | succ n =>
      rw [rung, step_of_two_le (natCast_standsFor _) (two_le_factor doubling n), if_pos rfl,
        stepUp_factor]
      rfl
  | negSucc n =>
    have hnext : Int.negSucc n + 1 = -(n : Int) := by omega
    rw [step_fraction, if_pos rfl, stepDown_factor, hnext, rung_neg]
    -- above 1/2 there is no fraction any more, but the default length
    change (if _ then _ else _) = _
    split_ifs
    · rw [unitFraction_natCast (factor_pos doubling n)]
      rfl
    · rfl

/-- A step down leads to the rung before. -/
theorem step_rung_shorter (k : Int) :
    step (rung doubling k) false doubling = .ok (rung doubling (k - 1)) := by
  cases k with
  | ofNat n =>
    cases n with
    | zero => cases doubling <;> rfl
    | succ n =>
      have hnext : Int.ofNat (n + 1) - 1 = (n : Int) := Int.add_sub_cancel n 1
      rw [rung, step_of_two_le (natCast_standsFor _) (two_le_factor doubling n),
        if_neg Bool.false_ne_true, stepDown_factor, hnext, rung_natCast]
      rfl
  | negSucc n =>
    rw [step_fraction, if_neg Bool.false_ne_true, stepUp_factor]
    change (do return some (← unitFraction _)) = _
    rw [unitFraction_natCast (factor_pos doubling (n + 2))]
    rfl

private theorem exact_rung_natCast (n : Nat) :
    ((rung doubling n).getD 1).exact = factor doubling n := by
  cases n with
  | zero =>
    rw [factor_zero]
    rfl
  | succ n => exact (natCast_standsFor _).exact_eq

private theorem exact_rung_neg (n : Nat) :
    ((rung doubling (-n)).getD 1).exact = 1 / factor doubling n := by
  cases n with
  | zero =>
    rw [factor_zero, Nat.cast_one, div_one]
    rfl
  | succ n => rfl

/-- Every rung is longer than the one before. -/
theorem exact_rung_lt_succ (k : Int) :
    ((rung doubling k).getD 1).exact < ((rung doubling (k + 1)).getD 1).exact := by
  have hfactor (n : Nat) : (factor doubling n : Rat) < factor doubling (n + 1) :=
    Nat.cast_lt.mpr (factor_strictMono doubling n.lt_succ_self)
  cases k with
  | ofNat n =>
    calc ((rung doubling n).getD 1).exact = factor doubling n := exact_rung_natCast doubling n
      _ < factor doubling (n + 1) := hfactor n
      _ = ((rung doubling (n + 1)).getD 1).exact := (exact_rung_natCast doubling (n + 1)).symm
  | negSucc n =>
    have hpos : (0 : Rat) < factor doubling n := Nat.cast_pos.mpr (factor_pos doubling n)
    have hnext : Int.negSucc n + 1 = -(n : Int) := by omega
    calc ((rung doubling (-(n + 1 : Nat))).getD 1).exact
        = 1 / factor doubling (n + 1) := exact_rung_neg doubling (n + 1)
      _ < 1 / factor doubling n := one_div_lt_one_div_of_lt hpos (hfactor n)
      _ = ((rung doubling (Int.negSucc n + 1)).getD 1).exact := by rw [hnext, exact_rung_neg]

/-- No length is on two rungs. -/
theorem eq_of_rung_eq {j k : Int} (h : rung doubling j = rung doubling k) : j = k := by
  apply (strictMono_int_of_lt_succ (exact_rung_lt_succ doubling)).injective
  exact congrArg (fun c => (c.getD 1).exact) h

end

/-! ### Runs of steps -/

/-- A number that is a step up or a step down: neither zero nor NaN. -/
def IsDelta (d : Number) : Prop := Number.lt 0 d = true ∨ Number.lt d 0 = true

instance (d : Number) : Decidable (IsDelta d) :=
  inferInstanceAs (Decidable (Number.lt 0 d = true ∨ Number.lt d 0 = true))

/-- The multiplier after one step for each of some numbers. -/
def stepAll (current : Option Number) (deltas : List Number) (doubling : Bool) :
    Except Failure (Option Number) :=
  deltas.foldlM (fun current delta => stepBy current delta doubling) current

/-- How many more of some numbers are steps up than steps down. -/
def net (deltas : List Number) : Int :=
  deltas.countP (Number.lt 0 ·) - deltas.countP (Number.lt · 0)

private theorem net_cons_of_pos {d : Number} (h : Number.lt 0 d = true) (deltas : List Number) :
    net (d :: deltas) = net deltas + 1 := by
  have hneg := Number.lt_asymm h
  simp only [net, List.countP_cons, h, hneg, if_true, Bool.false_eq_true, if_false]
  omega

private theorem net_cons_of_neg {d : Number} (h : Number.lt d 0 = true) (deltas : List Number) :
    net (d :: deltas) = net deltas - 1 := by
  have hpos := Number.lt_asymm h
  simp only [net, List.countP_cons, h, hpos, if_true, Bool.false_eq_true, if_false]
  omega

section
variable (doubling : Bool)

private theorem stepBy_rung_of_pos (k : Int) {d : Number} (h : Number.lt 0 d = true) :
    stepBy (rung doubling k) d doubling = .ok (rung doubling (k + 1)) := by
  rw [stepBy, h, step_rung_longer]

private theorem stepBy_rung_of_neg (k : Int) {d : Number} (h : Number.lt d 0 = true) :
    stepBy (rung doubling k) d doubling = .ok (rung doubling (k - 1)) := by
  rw [stepBy, Number.lt_asymm h, step_rung_shorter]

/-- A run of steps leads from a rung as far as there are more steps up than down. -/
theorem stepAll_rung (k : Int) {deltas : List Number} (h : ∀ d ∈ deltas, IsDelta d) :
    stepAll (rung doubling k) deltas doubling = .ok (rung doubling (k + net deltas)) := by
  induction deltas generalizing k with
  | nil => exact congrArg (fun k => Except.ok (rung doubling k)) (Int.add_zero k).symm
  | cons d deltas ih =>
    obtain ⟨hd, h⟩ := List.forall_mem_cons.mp h
    rw [stepAll, List.foldlM_cons]
    rcases hd with hpos | hneg
    · rw [stepBy_rung_of_pos doubling k hpos, net_cons_of_pos hpos, Int.add_comm (net deltas),
        ← Int.add_assoc]
      exact ih (k + 1) h
    · have hsum : k + (net deltas - 1) = k - 1 + net deltas := by omega
      rw [stepBy_rung_of_neg doubling k hneg, net_cons_of_neg hneg, hsum]
      exact ih (k - 1) h

end

/-- On either ladder, a step by a positive number leads from each rung to the next one, and a step by a
negative number to the one before. So a run of steps from the default length leads to the rung that is
told by the number of steps up less the number of steps down, and no other runs lead there than those
with this difference. -/
theorem stepAll_along_ladder (doubling : Bool) :
    (∀ k d, Number.lt 0 d = true →
        stepBy (rung doubling k) d doubling = .ok (rung doubling (k + 1))) ∧
      (∀ k d, Number.lt d 0 = true →
        stepBy (rung doubling k) d doubling = .ok (rung doubling (k - 1))) ∧
      ∀ deltas, (∀ d ∈ deltas, IsDelta d) →
        stepAll none deltas doubling = .ok (rung doubling (net deltas)) ∧
          ∀ deltas', (∀ d ∈ deltas', IsDelta d) →
            (stepAll none deltas doubling = stepAll none deltas' doubling ↔
              net deltas = net deltas') := by
  have hrun : ∀ deltas, (∀ d ∈ deltas, IsDelta d) →
      stepAll none deltas doubling = .ok (rung doubling (net deltas)) := by
    intro deltas h
    have hrung := stepAll_rung doubling 0 h
    rwa [Int.zero_add] at hrung
  refine ⟨fun k d => stepBy_rung_of_pos doubling k, fun k d => stepBy_rung_of_neg doubling k,
    fun deltas h => ⟨hrun deltas h, fun deltas' h' => ?_⟩⟩
  rw [hrun deltas h, hrun deltas' h', Except.ok.injEq]
  exact ⟨eq_of_rung_eq doubling, fun hnet => by rw [hnet]⟩

/-- Down to a quarter and up again across the default length, and back to it. -/
theorem stepAll_along_ladder_twice :
    (∀ d ∈ [Number.whole (-1), .ratio (-1 / 2), 3, .whole 1, 1], IsDelta d) ∧
      stepAll none [.whole (-1), .ratio (-1 / 2), 3, .whole 1, 1] true = .ok (some (.whole 2)) ∧
      Number.lt (.whole (-7)) 0 = true ∧ stepBy (some (.whole 2)) (.whole (-7)) true = .ok none := by
  have h : ∀ d ∈ [Number.whole (-1), .ratio (-1 / 2), 3, .whole 1, 1], IsDelta d := by
    decide +kernel
  have hnet : net [.whole (-1), .ratio (-1 / 2), 3, .whole 1, 1] = 1 := by decide +kernel
  have hneg : Number.lt (.whole (-7)) 0 = true := by decide +kernel
  obtain ⟨-, hshorter, hrun⟩ := stepAll_along_ladder true
  have htwo := (hrun _ h).1
  rw [hnet] at htwo
  exact ⟨h, htwo, hneg, hshorter 1 _ hneg⟩

end Ticks
end LeadSheet
