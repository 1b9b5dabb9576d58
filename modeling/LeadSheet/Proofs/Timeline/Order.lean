import LeadSheet.Proofs.Number.Rounding
import LeadSheet.Proofs.Timeline.Run

/-!
The order of time on a run. Unless a command goes back or to a measure by its number, the position
never falls: notes and rests have lengths that are not negative, the next measure never starts before
the position, and a block goes on where the one inside it ends. What is logged on the way is then
logged in the order of time, in ticks and, since rounding keeps the order, in beats.
-/
namespace LeadSheet
variable {α : Type}

/-- A command that can set the position back: to the start of the block, or to a measure by its
number. -/
def Command.jumps : Command → Bool
  | .backToStart | .measure (some _) => true
  | _ => false

private theorem Ticks.dotted_nonneg {dots : Int} {q : Rat} (h : dotted dots = .ok q) : 0 ≤ q := by
  rw [dotted] at h
  split at h
  · cases h
  · obtain rfl := Except.ok.inj h
    have hone : 1 ≤ Nat.pow 2 dots.toNat := Nat.one_le_two_pow
    rw [Rat.mkRat_eq_div]
    apply div_nonneg
    · exact Int.cast_nonneg (by omega)
    · exact Int.cast_nonneg (Int.natCast_nonneg _)

/-- Ticks that are not negative are rounded to ticks that are not. -/
theorem Ticks.round_nonneg {q : Rat} {n : Int} (hq : 0 ≤ q) (h : round (.ratio q) = .ok n) :
    0 ≤ n := by
  obtain rfl : (q + 1 / 2).floor = n := Except.ok.inj h
  exact Rat.le_floor_iff.mpr (by push_cast; linarith)

namespace Cursor

/-- Lengths at a cursor are not negative. -/
structure Steady (c : Cursor) : Prop where
  noteLength : 0 ≤ c.noteLength
  stretch : 0 ≤ c.stretch

theorem steady_initial (octave : Int) : (initial octave).Steady := ⟨show (0 : Rat) ≤ 48 by decide, zero_le_one⟩

/-- A length is the plain one with the multiplier and the dots put to it, rounded to ticks. -/
theorem length_eq_ok {c : Cursor} {timing : Timing} {n : Int} (h : c.length timing = .ok n) :
    ∃ multiplied dotted,
      (multiplied = .ratio (c.noteLength * c.stretch) ∨ ∃ m, timing.multiplier = some m ∧
        Number.mul (.ratio (c.noteLength * c.stretch)) m = .ok multiplied) ∧
      (dotted = multiplied ∨ ∃ dots factor, timing.dots = some dots ∧
        Ticks.dotted dots = .ok factor ∧ multiplied.mul (.ratio factor) = .ok dotted) ∧
      Ticks.round dotted = .ok n := by
  rw [length_eq] at h
  obtain ⟨multiplied, hm, h⟩ := Except.bind_eq_ok_iff.mp h
  obtain ⟨dotted, hd, h⟩ := Except.bind_eq_ok_iff.mp h
  refine ⟨multiplied, dotted, ?_, ?_, h⟩
  · split at hm
    · next m hmultiplier =>
      split at hm
      · exact .inl (Except.ok.inj hm).symm
      · exact .inr ⟨m, hmultiplier, hm⟩
    · exact .inl (Except.ok.inj hm).symm
  · split at hd
    · next k hdots =>
      split at hd
      · exact .inl (Except.ok.inj hd).symm
      · obtain ⟨factor, hf, hd⟩ := Except.bind_eq_ok_iff.mp hd
        exact .inr ⟨k, factor, hdots, hf, hd⟩
    · exact .inl (Except.ok.inj hd).symm

private theorem Steady.length_nonneg {c : Cursor} (hc : c.Steady) {timing : Timing}
    (ht : timing.Proper)
    {n : Int} (h : c.length timing = .ok n) : 0 ≤ n := by
  obtain ⟨multiplied, dotted, hm, hd, h⟩ := length_eq_ok h
  have hplain : 0 ≤ c.noteLength * c.stretch := mul_nonneg hc.noteLength hc.stretch
  have hmultiplied : ∃ q, 0 ≤ q ∧ multiplied = .ratio q := by
    rcases hm with rfl | ⟨m, hmul, hm⟩
    · exact ⟨_, hplain, rfl⟩
    · obtain ⟨q, hq, rfl⟩ := ht m hmul
      exact ⟨_, mul_nonneg hplain hq, (Except.ok.inj hm).symm⟩
  obtain ⟨q, hq, rfl⟩ := hmultiplied
  have hdotted : ∃ q, 0 ≤ q ∧ dotted = .ratio q := by
    rcases hd with rfl | ⟨dots, factor, -, hf, hd⟩
    · exact ⟨_, hq, rfl⟩
    · exact ⟨_, mul_nonneg hq (Ticks.dotted_nonneg hf), (Except.ok.inj hd).symm⟩
  obtain ⟨q, hq, rfl⟩ := hdotted
  exact Ticks.round_nonneg hq h

private theorem Steady.changeTempo {c : Cursor} (hc : c.Steady) (tempo : Tempo) (count : Int) :
    (c.changeTempo tempo count).Steady := by
  refine ⟨hc.noteLength, mul_nonneg hc.stretch (zpow_nonneg ?_ count)⟩
  cases tempo <;> norm_num

private theorem Steady.changeMeter {c d : Cursor} (hc : c.Steady) {beats : Datum} {unit : Nat}
    (h : c.changeMeter beats unit = .ok d) : d.position = c.position ∧ d.Steady := by
  obtain ⟨-, _, -, rfl⟩ := changeMeter_eq_ok h
  refine ⟨rfl, div_nonneg (by norm_num [Ticks.perBeat]) ?_, hc.stretch⟩
  exact Int.cast_nonneg (Int.natCast_nonneg unit)

private theorem le_toMeasure_none (c : Cursor) : c.position ≤ (c.toMeasure none).position := by
  rw [toMeasure]
  dsimp only
  split
  · exact le_rfl
  · exact not_lt.mp ‹_›

/-- A written command that does not jump leaves the position where it is or sets it forward. -/
theorem Steady.step {c d : Cursor} (hc : c.Steady) {command : Command} (hw : command.Written)
    (hj : command.jumps = false) (h : c.Moves command d) : c.position ≤ d.position ∧ d.Steady := by
  cases hw with
  | note name mark span ht =>
    obtain ⟨length, p, hl, rfl⟩ := h
    have hlength : (0 : Rat) ≤ length :=
      Int.cast_nonneg (hc.length_nonneg (Timing.proper_of_ofWritten? ht) hl)
    refine ⟨?_, hc.noteLength, hc.stretch⟩
    dsimp only
    split
    · exact le_rfl
    · exact le_add_of_nonneg_right hlength
  | rest ht =>
    rcases h with ⟨-, rfl⟩ | ⟨length, -, hl, rfl⟩
    · exact ⟨le_rfl, hc⟩
    · have hlength : (0 : Rat) ≤ length :=
        Int.cast_nonneg (hc.length_nonneg (Timing.proper_of_ofWritten? ht) hl)
      exact ⟨le_add_of_nonneg_right hlength, hc.noteLength, hc.stretch⟩
  | tempo tempo count =>
    obtain rfl : d = c.changeTempo tempo _ := h
    exact ⟨le_rfl, hc.changeTempo tempo _⟩
  | measure number =>
    obtain rfl : d = c.toMeasure _ := h
    cases number with
    | none => exact ⟨c.le_toMeasure_none, hc.noteLength, hc.stretch⟩
    | some n => cases hj
  | track number =>
    obtain ⟨n, -, rfl⟩ := h
    exact ⟨le_rfl, hc.noteLength, hc.stretch⟩
  | keySignature count span =>
    obtain rfl : d = _ := h
    exact ⟨le_rfl, hc.noteLength, hc.stretch⟩
  | timeSignature beats =>
    obtain ⟨hp, hd⟩ := hc.changeMeter h
    exact ⟨hp.ge, hd⟩
  | backToStart => cases hj
  | _ =>
    obtain rfl : d = c := h
    exact ⟨le_rfl, hc⟩

/-- The stops of a run in the order of time, between its ends. -/
structure Ascends (c : Cursor) (stops : List (Stop α)) (e : Cursor) : Prop where
  ends : c.position ≤ e.position
  within : ∀ s ∈ stops, c.position ≤ s.front.position ∧ s.front.position ≤ s.behind.position ∧
    s.behind.position ≤ e.position
  apart : stops.Pairwise fun s t => s.behind.position ≤ t.front.position

private theorem Ascends.append {c d e : Cursor} {stops stops' : List (Stop α)}
    (h : Ascends c stops d)
    (h' : Ascends d stops' e) : Ascends c (stops ++ stops') e := by
  refine ⟨h.ends.trans h'.ends, ?_, ?_⟩
  · intro s hs
    rcases List.mem_append.mp hs with hs | hs
    · obtain ⟨hc, hs, hd⟩ := h.within s hs
      exact ⟨hc, hs, hd.trans h'.ends⟩
    · obtain ⟨hd, hs, he⟩ := h'.within s hs
      exact ⟨h.ends.trans hd, hs, he⟩
  · refine List.pairwise_append.mpr ⟨h.apart, h'.apart, ?_⟩
    intro s hs t ht
    exact (h.within s hs).2.2.trans (h'.within t ht).1

variable [Timebase α]

/-- A run over written commands that do not jump goes forward in time. -/
theorem Run.ascends {c e : Cursor} {commands : List Command} {stops : List (Stop α)}
    (h : Run c commands stops e) (hc : c.Steady)
    (hw : ∀ leaf ∈ Command.leavesIn commands, leaf.Written)
    (hj : ∀ leaf ∈ Command.leavesIn commands, leaf.jumps = false) : Ascends c stops e := by
  induction h with
  | done c => exact ⟨le_rfl, fun _ hs => (List.not_mem_nil hs).elim, .nil⟩
  | @step c d e command commands events stops hb hs tail ih =>
    rw [Command.leavesIn, Command.leaves_of_not_block hb] at hw hj
    obtain ⟨hwhead, hw⟩ := List.forall_mem_cons.mp hw
    obtain ⟨hjhead, hj⟩ := List.forall_mem_cons.mp hj
    obtain ⟨hle, hd⟩ := hc.step hwhead hjhead (moves_of_step hs)
    have hfirst : Ascends c [⟨command, c, events, d⟩] d :=
      ⟨hle, List.forall_mem_singleton.mpr ⟨le_rfl, hle, le_rfl⟩, List.pairwise_singleton _ _⟩
    exact hfirst.append (ih hd hw hj)
  | @block c d e inside commands stops stops' inner tail hi ht =>
    have hw' := List.forall_mem_append.mp hw
    have hj' := List.forall_mem_append.mp hj
    -- the block goes on at the position where the one inside it ends
    have hinner : Ascends c stops (c.leave d) :=
      let h := hi ⟨hc.noteLength, hc.stretch⟩ hw'.1 hj'.1
      ⟨h.ends, h.within, h.apart⟩
    exact hinner.append (ht ⟨hc.noteLength, hc.stretch⟩ hw'.2 hj'.2)

end Cursor
end LeadSheet
