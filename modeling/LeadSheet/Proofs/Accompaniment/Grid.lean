import LeadSheet.Proofs.Accompaniment.Block
import LeadSheet.Proofs.Number.Quotient

/-!
The grid that blocks are cut on: the ends of measures of one length, counted from beat zero on. A
block ends on the first line of the grid behind its start, and so behind no line that lies there.
-/
namespace LeadSheet

namespace Number
open Binary64 (rounded)

private theorem add_approx (x : Binary64) (b : Number) :
    (approx x).add b = b.toBinary64.map fun y => approx (x.add y) := by
  cases b <;> rfl

private theorem mul_approx (x : Binary64) (b : Number) :
    (approx x).mul b = b.toBinary64.map fun y => approx (x.mul y) := by
  cases b <;> rfl

private theorem floorDiv_approx {b : Number} {y : Binary64} (hy : b.toBinary64 = .ok y)
    (hzero : y.isZero = false) (x : Binary64) :
    (approx x).floorDiv b = .ok (approx (x.floorDiv y)) := by
  have h : (approx x).floorDiv b =
      (b.toBinary64 >>= fun y => if y.isZero then .error .divisionByZero
        else .ok (approx (x.floorDiv y))) := by
    cases b <;> rfl
  rw [h, hy]
  exact if_neg (ne_true_of_eq_false hzero)

private theorem toBinary64_of_pos {b : Number} (hb : 0 < b.exact) {y : Binary64}
    (h : b.toBinary64 = .ok y) : ∃ q, 0 ≤ q ∧ y = .finite q := by
  cases b with
  | whole n => exact ⟨_, Binary64.rounded_nonneg hb.le, nearest_eq_ok hb.le h⟩
  | ratio q => exact ⟨_, Binary64.rounded_nonneg hb.le, nearest_eq_ok hb.le h⟩
  | approx x =>
    obtain rfl := Except.ok.inj h
    cases x with
    | finite q => exact ⟨q, hb.le, rfl⟩
    | negZero | infinite | nan => exact absurd hb (lt_irrefl _)

private theorem le_of_lt_of_le {a b c : Number} (hab : a.lt b = true) (hbc : b.le c = true) :
    a.le c = true := by
  rw [lt] at hab
  rw [le] at hbc ⊢
  split at hab
  · next i p j q ha hb =>
    rw [hb] at hbc
    rw [ha]
    split at hbc
    · next j' q' k r hj hc =>
      obtain ⟨rfl, rfl⟩ := Prod.mk.inj (Option.some.inj hj)
      rw [hc]
      simp only [Bool.or_eq_true, Bool.and_eq_true, beq_iff_eq, decide_eq_true_eq] at hab hbc ⊢
      rcases hab with hij | ⟨rfl, hpq⟩
      · rcases hbc with hjk | ⟨rfl, -⟩
        · exact .inl (hij.trans hjk)
        · exact .inl hij
      · rcases hbc with hjk | ⟨rfl, hqr⟩
        · exact .inl hjk
        · exact .inr ⟨rfl, hpq.le.trans hqr⟩
    · cases hbc
  · cases hab

end Number

namespace ChordBlocks
open Binary64 (rounded limit)

/-- A beat lies on the grid of measures of a length, within its first lines. -/
def OnGrid (beats stop : Number) : Prop :=
  0 < beats.exact ∧ ∃ (n : Nat) (line : Number), n ≤ 2 ^ 50 ∧
    Number.mul (.approx (.finite n)) beats = .ok line ∧ line.same stop = true

/-- A whole beat that measures of a whole length divide lies on their grid. -/
theorem onGrid_of_dvd {beats stop : Int} (hpos : 0 < beats) (hdvd : beats ∣ stop)
    (hstop : 0 < stop) (hle : stop ≤ 2 ^ 50) : OnGrid (.whole beats) (.whole stop) := by
  lift beats to Nat using hpos.le
  lift stop to Nat using hstop.le
  obtain ⟨n, rfl⟩ := Int.natCast_dvd_natCast.mp hdvd
  have hn : n ≤ beats * n := Nat.le_mul_of_pos_left n (by omega)
  have hbeats : beats ≤ beats * n := Nat.le_of_dvd (by omega) (Nat.dvd_mul_right beats n)
  have hline : Number.mul (.approx (.finite n)) (.whole beats) =
      .ok (.approx (.finite (beats * n : Nat))) := by
    rw [Number.mul_approx, Number.toBinary64_natCast (by omega), Except.map,
      Binary64.mul_finite n.cast_nonneg beats.cast_nonneg, mul_comm, ← Nat.cast_mul,
      Binary64.round_natCast (by omega)]
  refine ⟨Int.cast_pos.mpr hpos, n, _, by omega, hline, ?_⟩
  rw [Number.finite_same_whole]
  rfl

/-- A line of the grid at a whole beat is so many lengths, rounded once. -/
theorem OnGrid.eq_rounded {beats : Number} {stop : Int} (h : OnGrid beats (.whole stop)) :
    ∃ (n : Nat) (y : Rat), n ≤ 2 ^ 50 ∧ 0 ≤ y ∧ beats.toBinary64 = .ok (.finite y) ∧
      rounded (n * y) = stop ∧ rounded (n * y) < limit := by
  obtain ⟨hpos, n, line, hn, hline, hsame⟩ := h
  rw [Number.mul_approx] at hline
  obtain ⟨y', hy', rfl⟩ := Except.map_eq_ok_iff.mp hline
  obtain ⟨y, hy, rfl⟩ := Number.toBinary64_of_pos hpos hy'
  have hproduct : 0 ≤ n * y := mul_nonneg n.cast_nonneg hy
  rw [Binary64.mul_finite n.cast_nonneg hy] at hsame
  rcases Binary64.round_of_nonneg hproduct with hround | ⟨negative, hround⟩
  · rw [hround, Number.finite_same_whole] at hsame
    exact ⟨n, y, hn, hy, hy', hsame, ((Binary64.round_eq_finite_iff hproduct).mp hround).2⟩
  · rw [hround, Number.infinite_same_whole] at hsame
    cases hsame

/-- Lengths that reach a whole beat in few steps are in the normal range. -/
theorem normal_of_rounded {n : Nat} {y : Rat} (hn : n ≤ 2 ^ 50) (hy : 0 ≤ y)
    (hone : 1 ≤ rounded (n * y)) : 2 ^ (-1022 : Int) ≤ y := by
  by_contra hsmall
  have hle : n * y ≤ 1 / 2 := by
    calc n * y ≤ 2 ^ 50 * 2 ^ (-1022 : Int) := by
          gcongr
          · exact_mod_cast hn
          · exact (not_le.mp hsmall).le
      _ = 2 ^ (-972 : Int) := by
          rw [← zpow_natCast, ← zpow_add₀ two_ne_zero]
          rfl
      _ ≤ 2 ^ (-1 : Int) := zpow_le_zpow_right₀ one_le_two (by decide)
      _ = 1 / 2 := by norm_num
  have hrounded := Binary64.rounded_mono (mul_nonneg n.cast_nonneg hy) hle
  rw [Binary64.rounded_half] at hrounded
  linarith

theorem measureEnd_finite {beats : Number} {x y : Rat} {f : Nat} (hpos : 0 < y)
    (hbeats : beats.toBinary64 = .ok (.finite y))
    (hf : Binary64.floorDiv (.finite x) (.finite y) = .finite f) (hlt : f < 2 ^ 53) :
    measureEnd beats (.approx (.finite x)) =
      .ok (.approx (Binary64.round ((f + 1 : Nat) * y))) := by
  have hquotient : Timebase.floorDiv (.approx (.finite x)) beats =
      .ok (Number.approx (.finite f)) := by
    rw [← hf]
    exact Number.floorDiv_approx hbeats (decide_eq_false hpos.ne') _
  have hone : (Number.whole 1).toBinary64 = .ok (.finite 1) := by decide +kernel
  have hnumber : Timebase.add (.approx (.finite f)) (Timebase.ofInt 1) =
      .ok (Number.approx (.finite (f + 1 : Nat))) := by
    change Number.add _ (.whole 1) = _
    rw [Number.add_approx, hone, ← Binary64.add_natCast_one hlt]
    rfl
  have hend : Timebase.mul (.approx (.finite (f + 1 : Nat))) beats =
      .ok (Number.approx (Binary64.round ((f + 1 : Nat) * y))) := by
    change Number.mul _ beats = _
    rw [Number.mul_approx, hbeats, ← Binary64.mul_finite (Nat.cast_nonneg _) hpos.le]
    rfl
  rw [measureEnd, hquotient]
  change (Timebase.add (Number.approx (.finite f)) (Timebase.ofInt 1) >>= fun number =>
    Timebase.mul number beats) = _
  rw [hnumber]
  exact hend

/-- The end of a measure is behind no line of the grid that is behind the beat. -/
theorem measureEnd_le {beats : Number} {x : Rat} {stop : Int} (hx : 0 ≤ x)
    (hrounded : rounded x = x) (hgrid : OnGrid beats (.whole stop)) (hlt : x < stop) :
    ∃ ends, measureEnd beats (.approx (.finite x)) = .ok ends ∧ ends.le (.whole stop) = true := by
  obtain ⟨n, y, hn, hy, hbeats, hline, hlimit⟩ := hgrid.eq_rounded
  have hone : 1 ≤ rounded (n * y) := by
    rw [hline]
    exact_mod_cast Int.cast_pos.mp (hx.trans_lt hlt)
  have hnormal := normal_of_rounded hn hy hone
  have hpos : 0 < y := (zpow_pos two_pos _).trans_le hnormal
  -- the beat is in front of the line also before that is rounded
  have hfront : x < n * y := by
    by_contra hbehind
    have hle := Binary64.rounded_mono (mul_nonneg n.cast_nonneg hy) (not_lt.mp hbehind)
    rw [hrounded, hline] at hle
    exact absurd hlt (not_lt.mpr hle)
  have hfloor : ⌊x / y⌋ < n := by
    rw [Int.floor_lt, div_lt_iff₀ hpos]
    exact hfront
  have hxlimit : rounded x < limit := by
    rw [hrounded]
    exact (hlt.trans_eq hline.symm).trans hlimit
  obtain ⟨f, hf, hfk⟩ := Binary64.floorDiv_finite hx hxlimit hnormal
    (hfloor.le.trans (by exact_mod_cast hn))
  have hfn : f + 1 ≤ n := by omega
  have hnext : ((f + 1 : Nat) : Rat) * y ≤ n * y := by gcongr
  have hnonneg : 0 ≤ ((f + 1 : Nat) : Rat) * y := mul_nonneg (Nat.cast_nonneg _) hy
  have hle := Binary64.rounded_mono hnonneg hnext
  refine ⟨_, measureEnd_finite hpos hbeats hf (by omega), ?_⟩
  rw [Binary64.round_eq_finite hnonneg (hle.trans_lt hlimit), Number.finite_le_whole, ← hline]
  exact hle

/-- A block that starts in front of a line of the grid stops there at the latest. -/
theorem Placed.stop_le {β : Type} {beats : Number} {chords : List (Number × β)}
    {b : ChordBlock Number β} (h : Placed beats chords b) {x : Rat}
    (hstart : b.start = .approx (.finite x)) (hx : 0 ≤ x) (hrounded : rounded x = x) {stop : Int}
    (hgrid : OnGrid beats (.whole stop)) (hlt : b.start.lt (.whole stop) = true) :
    b.stop.le (.whole stop) = true := by
  obtain ⟨ends, hends, hstop⟩ := h.inMeasure
  rw [hstart] at hends hlt
  obtain ⟨ends', hends', hle⟩ := measureEnd_le hx hrounded hgrid (Number.finite_lt_whole.mp hlt)
  obtain rfl : ends = ends' := Except.ok.inj (hends.symm.trans hends')
  rcases hstop with heq | hbefore
  · rwa [heq]
  · exact Number.le_of_lt_of_le hbefore hle

end ChordBlocks
end LeadSheet
