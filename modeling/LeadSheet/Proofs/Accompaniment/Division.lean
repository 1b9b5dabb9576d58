import LeadSheet.Accompaniment.Division
import LeadSheet.Proofs.Outcome
import Mathlib.Algebra.Order.Field.Power
import Mathlib.Algebra.Order.Floor.Ring
import Mathlib.Data.Rat.Floor
import Mathlib.Tactic.Linarith
import Mathlib.Tactic.Positivity
import Mathlib.Tactic.Ring

/-!
Divisions in exact time. However short they are, finitely many follow each other without gaps up to
the end of the stretch, where the last of them is cut off.
-/
namespace LeadSheet.Accompaniment

/-- Divisions that follow each other from a beat on, numbered from a number on, the last of which
ends at `stop`. -/
inductive Tiles (stop : Rat) : Rat → Nat → List (Division Rat) → Prop
  | last {left : Rat} {number : Nat} (h : left < stop) : Tiles stop left number [⟨left, stop, number⟩]
  | next {left right : Rat} {number : Nat} {ds : List (Division Rat)} (h : left < right)
      (hstop : right < stop) (tail : Tiles stop right (number + 1) ds) :
      Tiles stop left number (⟨left, right, number⟩ :: ds)

theorem Tiles.ne_nil {stop left : Rat} {number : Nat} {ds : List (Division Rat)}
    (h : Tiles stop left number ds) : ds ≠ [] := by
  cases h <;> exact List.cons_ne_nil _ _

theorem Tiles.exists_number {stop left : Rat} {number : Nat} {ds : List (Division Rat)}
    (h : Tiles stop left number ds) : ∃ d ∈ ds, d.number = number := by
  cases h <;> exact ⟨_, List.mem_cons_self .., rfl⟩

theorem Tiles.mem {stop left : Rat} {number : Nat} {ds : List (Division Rat)}
    (h : Tiles stop left number ds) {d : Division Rat} (hd : d ∈ ds) :
    left ≤ d.left ∧ d.left < d.right ∧ d.right ≤ stop := by
  induction h with
  | last h =>
    obtain rfl := List.mem_singleton.mp hd
    exact ⟨le_rfl, h, le_rfl⟩
  | next h hstop tail ih =>
    rcases List.mem_cons.mp hd with rfl | hd
    · exact ⟨le_rfl, h, hstop.le⟩
    · obtain ⟨hl, hlr, hr⟩ := ih hd
      exact ⟨h.le.trans hl, hlr, hr⟩

/-- Divisions that are cut off from a beat on, numbered from a number on: each has the length, until
one would reach `stop` and ends there. -/
inductive Cuts (stop length : Rat) : Rat → Nat → List (Division Rat) → Prop
  | last {left : Rat} {number : Nat} (h : stop ≤ left + length) :
      Cuts stop length left number [⟨left, stop, number⟩]
  | next {left : Rat} {number : Nat} {ds : List (Division Rat)} (h : left + length < stop)
      (tail : Cuts stop length (left + length) (number + 1) ds) :
      Cuts stop length left number (⟨left, left + length, number⟩ :: ds)

theorem Cuts.tiles {stop length left : Rat} {number : Nat} {ds : List (Division Rat)}
    (h : Cuts stop length left number ds) (hlength : 0 < length) (hleft : left < stop) :
    Tiles stop left number ds := by
  induction h with
  | last _ => exact .last hleft
  | next hnext _ ih => exact .next (lt_add_of_pos_right _ hlength) hnext (ih hnext)

/-- Enough divisions of a length get to the end. -/
theorem cuts_divisionsFrom {stop length : Rat} {fuel : Nat} {left : Rat} (number : Nat)
    (hleft : left < stop) (hfuel : stop - left ≤ fuel * length) :
    ∃ ds, divisionsFrom stop length fuel left number = .ok ds ∧ Cuts stop length left number ds := by
  induction fuel generalizing left number with
  | zero =>
    rw [Nat.cast_zero, zero_mul] at hfuel
    exact absurd hfuel (by linarith)
  | succ fuel ih =>
    rw [Nat.cast_succ] at hfuel
    by_cases hnext : left + length < stop
    · obtain ⟨ds, hds, hcuts⟩ := ih (number + 1) hnext (by linarith)
      refine ⟨⟨left, left + length, number⟩ :: ds, ?_, .next hnext hcuts⟩
      have hleast : Timebase.least stop (left + length) = left + length :=
        if_pos (decide_eq_true hnext)
      have hle : Timebase.le stop (left + length) = false := decide_eq_false (not_le.mpr hnext)
      rw [divisionsFrom]
      refine Except.bind_eq_ok_iff.mpr ⟨left + length, rfl, ?_⟩
      dsimp only
      rw [hleast, hle, if_neg Bool.false_ne_true, hds]
      rfl
    · refine ⟨[⟨left, stop, number⟩], ?_, .last (not_lt.mp hnext)⟩
      have hleast : Timebase.least stop (left + length) = stop :=
        if_neg fun h => hnext (of_decide_eq_true h)
      have hle : Timebase.le stop stop = true := decide_eq_true (le_refl stop)
      rw [divisionsFrom]
      refine Except.bind_eq_ok_iff.mpr ⟨left + length, rfl, ?_⟩
      dsimp only
      rw [hleast, if_pos hle]
      rfl

private theorem le_stepBound_mul (span : Rat) {length : Rat} (hlength : 0 < length) :
    span ≤ Timebase.stepBound span length * length := by
  rw [Timebase.stepBound, if_neg (not_le.mpr hlength)]
  have hceil : span / length ≤ (span / length).ceil.toNat :=
    Rat.le_ceil.trans (by exact_mod_cast Int.self_le_toNat (span / length).ceil)
  have hnonneg : (0 : Rat) ≤ (span / length).ceil.toNat := Nat.cast_nonneg _
  rw [← div_le_iff₀ hlength]
  push_cast
  linarith

/-- The beats of a measure, of which there are four where they are not known. -/
def measureBeats (sheet : Sheet Rat) : Rat := (knownBeats sheet).getD 4

theorem measureBeats_pos {sheet : Sheet Rat}
    (hbeats : ∀ beats ∈ sheet.metadata.beatsPerMeasure, 0 < beats) : 0 < measureBeats sheet := by
  rw [measureBeats]
  cases hk : knownBeats sheet with
  | none => exact show (0 : Rat) < 4 by norm_num
  | some beats => exact hbeats beats (Option.mem_filter_iff.mp hk).1

theorem knownBeats_eq_some {sheet : Sheet Rat} {beats : Rat}
    (hbeats : sheet.metadata.beatsPerMeasure = some beats) (hpos : 0 < beats) :
    knownBeats sheet = some beats := by
  rw [knownBeats, hbeats]
  exact Option.filter_eq_some_iff.mpr ⟨rfl, by simpa [Timebase.isZero] using hpos.ne'⟩

private theorem divisionLength_eq (sheet : Sheet Rat) (count : Int) :
    divisionLength sheet (.whole count) = .ok (measureBeats sheet / 2 ^ (count - 1)) := by
  have hparts : (2 : Rat) ^ (count - 1) ≠ 0 := zpow_ne_zero _ two_ne_zero
  rw [divisionLength]
  refine Except.bind_eq_ok_iff.mpr ⟨.whole (count - 1), rfl, ?_⟩
  exact Except.bind_eq_ok_iff.mpr ⟨2 ^ (count - 1), rfl, if_neg hparts⟩

/-- A stretch of time can always be divided, whatever the count. -/
theorem cuts_divisions {sheet : Sheet Rat}
    (hbeats : ∀ beats ∈ sheet.metadata.beatsPerMeasure, 0 < beats) {start stop : Rat}
    (h : start < stop) (count : Int) :
    ∃ ds, divisions sheet start stop (.whole count) = .ok ds ∧
      Cuts stop (measureBeats sheet / 2 ^ (count - 1)) start 0 ds := by
  have hpos : 0 < measureBeats sheet / 2 ^ (count - 1) :=
    div_pos (measureBeats_pos hbeats) (zpow_pos two_pos _)
  have hlength := divisionLength_eq sheet count
  generalize measureBeats sheet / 2 ^ (count - 1) = length at hpos hlength ⊢
  have hfuel : stop - start ≤
      ((Timebase.stepBound (stop - start) length + 1 : Nat) : Rat) * length := by
    have := le_stepBound_mul (stop - start) hpos
    push_cast
    linarith
  obtain ⟨ds, hds, hcuts⟩ := cuts_divisionsFrom 0 h hfuel
  exact ⟨ds, Except.bind_eq_ok_iff.mpr ⟨length, hlength, hds⟩, hcuts⟩

/-- The divisions of a stretch of time fill it, whatever their count. -/
theorem tiles_divisions {sheet : Sheet Rat}
    (hbeats : ∀ beats ∈ sheet.metadata.beatsPerMeasure, 0 < beats) {start stop : Rat}
    (h : start < stop) (count : Int) :
    ∃ ds, divisions sheet start stop (.whole count) = .ok ds ∧ Tiles stop start 0 ds := by
  obtain ⟨ds, hds, hcuts⟩ := cuts_divisions hbeats h count
  exact ⟨ds, hds, hcuts.tiles (div_pos (measureBeats_pos hbeats) (zpow_pos two_pos _)) h⟩

end LeadSheet.Accompaniment
