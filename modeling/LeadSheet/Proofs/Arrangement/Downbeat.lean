import LeadSheet.Proofs.Arrangement
import LeadSheet.Proofs.Arrangement.Stages
import LeadSheet.Proofs.Number.Quotient
import LeadSheet.Proofs.Song.Measures
import LeadSheet.Proofs.Timeline.Duration
import LeadSheet.Proofs.Timeline.Meter
import Mathlib.Tactic.IntervalCases
import Mathlib.Tactic.LinearCombination

/-!
A note at the start of a measure. The compiler reckons where a measure starts in ticks, by the number
of beats and the unit of the time signature; the measures of a song are laid out by the log, which
holds the number of beats alone. The two agree on the start of a measure only where the unit is that
of the log, a quarter.
-/
namespace LeadSheet
open Binary64 (rounded)

/-- The text of a note at the start of a measure, under a time signature. -/
def downbeat (beats unit number : Nat) : String :=
  "ts" ++ toString beats ++ "/" ++ toString unit ++ " m" ++ toString number ++ " c"

private theorem write_downbeat (beats unit number : Nat) :
    Word.write [.timeSignature beats unit, .measure (some number),
      .note ⟨.C, none, none, ⟨none, 0, none⟩⟩] = downbeat beats unit number := by
  have hletter : Letter.C.toChar.toLower = 'c' := rfl
  apply String.toList_inj.mp
  simp [Word.write, Word.located, Token.ofLexeme?, Token.ofWord, Token.write, Token.textsBehind,
    Token.gap, Token.text, Token.commandText, Token.noteText, TokenTiming.text,
    TokenTiming.ofWritten, String.join, downbeat, hletter]

/-- The commands of that text. -/
def downbeatCommands (beats unit number : Nat) : List Command :=
  [.timeSignature (.whole beats) unit, .measure (some number),
    .note (NoteName.inParts .C .natural none) none .plain none]

private theorem downbeat_standsFor (beats number : Nat) {unit : Nat} (hu : unit ≠ 0) :
    List.Forall₂ Word.StandsFor
      [.timeSignature beats unit, .measure (some number), .note ⟨.C, none, none, ⟨none, 0, none⟩⟩]
      (downbeatCommands beats unit number) :=
  .cons (fun _ _ _ => ⟨_, if_neg hu, rfl⟩)
    (.cons (fun _ _ _ => ⟨_, rfl, rfl⟩) (.cons (fun _ _ _ => ⟨_, rfl, rfl⟩) .nil))

/-! ### Units that divide a whole note, which has 192 ticks -/

private theorem Meter.unit_ne_zero_of_mul_eq {unit ticks : Nat} (h : unit * ticks = 192) :
    unit ≠ 0 :=
  left_ne_zero_of_mul (ne_of_eq_of_ne h (by decide))

private theorem Meter.ticks_pos_of_mul_eq {unit ticks : Nat} (h : unit * ticks = 192) : 1 ≤ ticks :=
  Nat.one_le_iff_ne_zero.mpr (right_ne_zero_of_mul (ne_of_eq_of_ne h (by decide)))

private theorem Meter.noteLength_of_mul_eq {unit ticks : Nat} (h : unit * ticks = 192)
    (beats : Int) :
    (⟨beats, unit⟩ : Meter).noteLength = ticks := by
  have hunit : (unit : Rat) ≠ 0 := Nat.cast_ne_zero.mpr (Meter.unit_ne_zero_of_mul_eq h)
  have hcast : (unit : Rat) * ticks = 192 := by exact_mod_cast h
  rw [noteLength, Int.cast_natCast, div_eq_iff hunit, mul_comm (ticks : Rat), hcast]
  norm_num [Ticks.perBeat]

private theorem Meter.beats_of_mul_eq {unit ticks : Nat} (h : unit * ticks = 192) (count : Nat) :
    (4 * count / unit : Rat) = count * ticks / 48 := by
  have hunit : (unit : Rat) ≠ 0 := Nat.cast_ne_zero.mpr (Meter.unit_ne_zero_of_mul_eq h)
  have hcast : (unit : Rat) * ticks = 192 := by exact_mod_cast h
  rw [div_eq_div_iff hunit (by norm_num)]
  linear_combination (-count : Rat) * hcast

/-- The walk through a text with a note at the start of a measure. -/
theorem Cursor.walkAll_downbeat {α : Type} [Timebase α] (octave : Int) (beats number : Nat)
    {unit ticks : Nat} (h : unit * ticks = 192) {zero start duration : α}
    (hzero : Ticks.toBeats 0 = .ok zero)
    (hstart : Ticks.toBeats (number * (ticks * beats)) = .ok start)
    (hduration : Ticks.toBeats (ticks : Rat) = .ok duration) :
    ∃ name e, (initial octave).walkAll (downbeatCommands beats unit number) =
      (⟨[.timeSignature zero (.whole beats), .note 0 name start duration none], .ok e⟩ : Walk α) ∧
        e.measureLength = ticks * beats := by
  have hunit : (unit : Int) ≠ 0 := Int.natCast_ne_zero.mpr (Meter.unit_ne_zero_of_mul_eq h)
  have hnote := Meter.noteLength_of_mul_eq h beats
  have hmeasure : (⟨beats, unit⟩ : Meter).measureLength = ticks * beats := by
    rw [Meter.measureLength, hnote, Int.cast_natCast]
  have hbeat : (initial octave).beat = .ok zero := hzero
  have hmeter := step_timeSignature beats hunit hbeat
  rw [hnote, hmeasure] at hmeter
  let metered : Cursor :=
    { initial octave with noteLength := ticks, measureLength := ticks * beats }
  obtain ⟨name, hname, p, hp⟩ := ((metered.toMeasure (some number)).yields_soundingName .C none
    none).exists_good fun _ hkey => by cases hkey
  have hstep := step_plain_note hname hp (mul_one (ticks : Rat)) hstart hduration none
  rw [Option.map_none] at hstep
  have hmove : metered.step (.measure (some number)) = (.ok (metered.toMeasure (some number), []) :
      Except Failure (Cursor × List (Event α))) := rfl
  refine ⟨name, (metered.toMeasure (some number)).advance ticks (some p), ?_, rfl⟩
  rw [downbeatCommands, walkAll_cons_of_step rfl hmeter, walkAll_cons_of_step rfl hmove,
    walkAll_cons_of_step rfl hstep]
  rfl

namespace Arrangement

private theorem withFirstSignature_at_zero (beats : Datum) :
    withFirstSignature [(Number.approx (.finite 0), beats)] =
      .ok [(Number.approx (.finite 0), beats)] := by
  have hzero : (Timebase.ofRat 0 : Except Failure Number) = .ok (.approx (.finite 0)) := rfl
  have hlt : Timebase.lt (Number.approx (.finite 0)) (.approx (.finite 0)) = false := rfl
  rw [withFirstSignature, hzero]
  dsimp only [bind, Except.bind]
  rw [hlt]
  rfl

/-- A note at the start of a measure makes a song of one note and one time signature. -/
theorem result_downbeat {beats unit ticks number : Nat} (h : unit * ticks = 192)
    {options : ArrangementOptions} {octave : Int} (ho : options.defaultOctave.toInt = .ok octave)
    {start duration length : Number}
    (hstart : Ticks.toBeats (number * (ticks * beats)) = .ok start)
    (hduration : Ticks.toBeats (ticks : Rat) = .ok duration)
    (hlength : wholeOrNearest (ticks * beats / Ticks.perBeat) = .ok length) :
    ∃ song note, (ofText (downbeat beats unit number) options).result = .ok song ∧
      song.sheet.notes = [note] ∧ note.start = start ∧ note.duration = duration ∧
      song.sheet.timeSignatures = [(Number.approx (.finite 0), .whole beats)] := by
  have hv : ∀ word ∈ [Word.timeSignature beats unit, .measure (some number),
      .note ⟨.C, none, none, ⟨none, 0, none⟩⟩], word.Valid := by
    simp [Word.Valid, WrittenNote.Valid, WrittenTiming.Valid]
  obtain ⟨name, e, hwalk, hmeasure⟩ :=
    Cursor.walkAll_downbeat octave beats number h Ticks.toBeats_zero hstart hduration
  have hmetadata : metadataAt e [] = .ok (⟨some e.key, some length, none⟩ : Metadata Number) := by
    rw [metadataAt, hmeasure, hlength]
    rfl
  have hplain := plainSong_of_walkAll hwalk hmetadata (withFirstSignature_at_zero (.whole beats))
  obtain ⟨song, hsong, hplaced⟩ := result_write hv
    (downbeat_standsFor beats number (Meter.unit_ne_zero_of_mul_eq h))
    (result_of_plainSong ho (congrArg Prod.snd hplain) rfl)
  have hsheet := congrArg Song.sheet hplaced
  obtain ⟨note, hnotes, hnote⟩ := List.map_eq_singleton_iff.mp (congrArg Sheet.notes hsheet)
  rw [write_downbeat] at hsong
  exact ⟨song, note, hsong, hnotes, congrArg Note.start hnote, congrArg Note.duration hnote,
    congrArg Sheet.timeSignatures hsheet⟩

end Arrangement

/-! ### The beats -/

private theorem Arrangement.exists_wholeOrNearest {q : Rat} (hq : 0 ≤ q) {n : Nat} (h : q ≤ 2 ^ n)
    (hn : n < 1024) : ∃ beats : Number, wholeOrNearest q = .ok beats := by
  rw [wholeOrNearest]
  split
  · exact ⟨_, rfl⟩
  · change ∃ beats, (do return Number.approx (← Number.nearest q)) = .ok beats
    rw [Number.nearest_of_nonneg hq (Binary64.rounded_lt_limit hq h hn)]
    exact ⟨_, rfl⟩

namespace Binary64

private theorem normal_of_beats {count ticks : Nat} (hcount : 1 ≤ count) (hticks : 1 ≤ ticks) :
    (2 : Rat) ^ (-1022 : Int) ≤ count * ticks / 48 := by
  have hcount' : (1 : Rat) ≤ count := by exact_mod_cast hcount
  have hticks' : (1 : Rat) ≤ ticks := by exact_mod_cast hticks
  calc (2 : Rat) ^ (-1022 : Int) ≤ 2 ^ (-6 : Int) := zpow_le_zpow_right₀ one_le_two (by decide)
    _ ≤ 1 * 1 / 48 := by norm_num
    _ ≤ count * ticks / 48 := by gcongr

/-- Beats of another length than a quarter come to another beat, also when that is rounded. -/
theorem rounded_beats_ne {count unit ticks : Nat} (hcount : 1 ≤ count)
    (h : unit * ticks = 192) (hne : ticks ≠ 48) : rounded (count * ticks / 48) ≠ count := by
  have hfar : ticks ≤ 32 ∨ 64 ≤ ticks := by
    rcases Nat.lt_or_ge unit 6 with hunit | hunit
    · interval_cases unit <;> omega
    · have hle := Nat.mul_le_mul_right ticks hunit
      omega
  have hcount' : (1 : Rat) ≤ count := by exact_mod_cast hcount
  obtain ⟨hlow, hhigh⟩ := rounded_bounds (normal_of_beats hcount (Meter.ticks_pos_of_mul_eq h))
  rcases hfar with hfar | hfar
  · have hle : (count : Rat) * ticks ≤ count * 32 := by
      gcongr
      exact_mod_cast hfar
    exact (by linarith : rounded (count * ticks / 48) < count).ne
  · have hle : (count : Rat) * 64 ≤ count * ticks := by
      gcongr
      exact_mod_cast hfar
    exact (by linarith : (count : Rat) < rounded (count * ticks / 48)).ne'

/-- A whole number of beats is reached by as many notes, and lies in front of the end of the next one,
only if these are quarters or there are none. -/
theorem rounded_beats_iff {count unit ticks : Nat} (hcount : count + 1 ≤ 2 ^ 53)
    (h : unit * ticks = 192) :
    ((count : Rat) < rounded (rounded (count * ticks / 48) + rounded (ticks / 48)) ∧
      (count : Rat) = rounded (count * ticks / 48)) ↔ unit = 4 ∨ count = 0 := by
  constructor
  · rintro ⟨-, heq⟩
    by_contra hne
    obtain ⟨hunit, hzero⟩ := not_or.mp hne
    refine rounded_beats_ne (Nat.one_le_iff_ne_zero.mpr hzero) h ?_ heq.symm
    rintro rfl
    omega
  · rintro (rfl | rfl)
    · obtain rfl : ticks = 48 := by omega
      have hone : rounded ((48 : Nat) / 48) = 1 := by
        rw [Nat.cast_ofNat, div_self (by norm_num)]
        exact_mod_cast rounded_natCast (n := 1) (by norm_num)
      have hstart : rounded (count * (48 : Nat) / 48) = count := by
        rw [Nat.cast_ofNat, mul_div_cancel_right₀ _ (by norm_num)]
        exact rounded_natCast (by omega)
      rw [hstart, hone, ← Nat.cast_succ, rounded_natCast hcount]
      exact ⟨Nat.cast_lt.mpr count.lt_succ_self, rfl⟩
    · have hnormal := normal_of_beats le_rfl (Meter.ticks_pos_of_mul_eq h)
      rw [Nat.cast_one, one_mul] at hnormal
      have hpos : (0 : Rat) < ticks / 48 := (zpow_pos two_pos _).trans_le hnormal
      obtain ⟨hlow, -⟩ := rounded_bounds hnormal
      rw [Nat.cast_zero, zero_mul, zero_div, rounded_zero, zero_add, rounded_rounded hpos.le]
      exact ⟨by linarith, rfl⟩

end Binary64

/-- The end of a song of one note. -/
theorem Sheet.stop_of_single {s : Sheet Number} {note : Note Number} {start duration : Rat}
    (hnotes : s.notes = [note]) (hstart : note.start = .approx (.finite start))
    (hduration : note.duration = .approx (.finite duration)) (h₀ : 0 ≤ start + duration) {n : Nat}
    (h : start + duration ≤ 2 ^ n) (hn : n < 1024) :
    s.stop = .ok (.approx (.finite (rounded (start + duration)))) := by
  have hadd : note.stop = .ok (.approx (.finite (rounded (start + duration)))) := by
    rw [← Binary64.round_eq_finite h₀ (Binary64.rounded_lt_limit h₀ h hn), Note.stop, hstart,
      hduration]
    rfl
  rw [stop, hnotes, List.mapM_cons, hadd]
  rfl

namespace Arrangement

/-- Where the note at the start of a measure lies and the song ends, as long as beats can be told
apart. -/
theorem extent_downbeat {beats unit ticks number : Nat} (h : unit * ticks = 192)
    (hbeats : beats ≤ 2 ^ 53) (hcount : number * beats ≤ 2 ^ 53) {options : ArrangementOptions}
    {octave : Int} (ho : options.defaultOctave.toInt = .ok octave) :
    ∃ song note, (ofText (downbeat beats unit number) options).result = .ok song ∧
      song.sheet.notes = [note] ∧
      note.start = Number.approx (.finite (rounded ((number * beats : Nat) * ticks / 48))) ∧
      song.sheet.stop = .ok (.approx (.finite
        (rounded (rounded ((number * beats : Nat) * ticks / 48) + rounded (ticks / 48))))) ∧
      song.sheet.timeSignatures = [(Number.approx (.finite 0), .whole beats)] := by
  have hticks : (ticks : Rat) ≤ 192 := by
    exact_mod_cast Nat.le_of_dvd (by decide) ⟨unit, by rw [← h, mul_comm]⟩
  have hbeats : (beats : Rat) ≤ 2 ^ 53 := by exact_mod_cast hbeats
  have hcount : ((number * beats : Nat) : Rat) ≤ 2 ^ 53 := by exact_mod_cast hcount
  have hlong : (0 : Rat) ≤ ticks / 48 := by positivity
  have hlong' : (ticks / 48 : Rat) ≤ 2 ^ 2 := by linarith
  have hbegin : (0 : Rat) ≤ (number * beats : Nat) * ticks / 48 := by positivity
  have hbegin' : ((number * beats : Nat) * ticks / 48 : Rat) ≤ 2 ^ 55 := by
    calc ((number * beats : Nat) * ticks / 48 : Rat) ≤ 2 ^ 53 * 192 / 48 := by gcongr
      _ = 2 ^ 55 := by norm_num
  have hmeasure : (ticks * beats / Ticks.perBeat : Rat) ≤ 2 ^ 55 := by
    calc (ticks * beats / Ticks.perBeat : Rat) ≤ 192 * 2 ^ 53 / Ticks.perBeat := by
          gcongr
          decide
      _ = 2 ^ 55 := by norm_num [Ticks.perBeat]
  have hposition : (number * (ticks * beats) : Rat) = (number * beats : Nat) * ticks := by
    push_cast
    ring
  have hstart : Ticks.toBeats (number * (ticks * beats)) =
      .ok (Number.approx (.finite (rounded ((number * beats : Nat) * ticks / 48)))) := by
    rw [hposition]
    exact Ticks.toBeats_of_nonneg (by positivity) hbegin' (by decide)
  have hduration : Ticks.toBeats (ticks : Rat) =
      .ok (Number.approx (.finite (rounded (ticks / 48)))) :=
    Ticks.toBeats_of_nonneg ticks.cast_nonneg hlong' (by decide)
  obtain ⟨length, hlength⟩ := exists_wholeOrNearest (q := ticks * beats / Ticks.perBeat)
    (div_nonneg (by positivity) (by decide)) hmeasure (by decide)
  obtain ⟨song, note, hsong, hnotes, hnote, hlasts, hlog⟩ :=
    result_downbeat h ho hstart hduration hlength
  refine ⟨song, note, hsong, hnotes, hnote, ?_, hlog⟩
  exact Sheet.stop_of_single (n := 56) hnotes hnote hlasts
    (add_nonneg (Binary64.rounded_nonneg hbegin) (Binary64.rounded_nonneg hlong))
    (by linarith [Binary64.rounded_le_two_pow hbegin hbegin',
      Binary64.rounded_le_two_pow hlong hlong']) (by decide)

/-- A note at the start of a measure, under a time signature whose unit divides a whole note, starts
where the measures before it end by the unit of the time signature. The measures of the song start at
the multiples of its number of beats; so the one with that number starts with the note only if the
unit is a quarter or the measure the first one. -/
theorem ofText_downbeat {beats unit number : Nat} (hbeats : 1 ≤ beats) (hunit : unit ∣ 192)
    (hlarge : beats * (number + 1) ≤ 2 ^ 53) {options : ArrangementOptions} {octave : Int}
    (ho : options.defaultOctave.toInt = .ok octave) :
    ∃ song note measures, (ofText (downbeat beats unit number) options).result = .ok song ∧
      song.sheet.notes = [note] ∧
      note.start = Number.approx (.finite (rounded (4 * (number * beats : Nat) / unit))) ∧
      song.sheet.measures = .ok measures ∧
      (∀ (i : Nat) (m : Sheet.Measure Number), measures[i]? = some m →
        m = ⟨.whole (i * beats), .whole beats⟩) ∧
      ((∃ m : Sheet.Measure Number, measures[number]? = some m ∧ m.start.same note.start = true) ↔
        unit = 4 ∨ number = 0) := by
  obtain ⟨ticks, h⟩ := hunit
  have h := h.symm
  have hcount : number * beats + 1 ≤ 2 ^ 53 := by nlinarith only [hbeats, hlarge]
  obtain ⟨song, note, hsong, hnotes, hnote, hstop, hlog⟩ :=
    extent_downbeat h (by nlinarith only [hlarge]) (Nat.le_of_succ_le hcount) ho
  obtain ⟨measures, hmeasures, hget⟩ := Sheet.getElem?_measures hstop (n := beats)
    (by exact_mod_cast hbeats) (by simp [hlog]) (by simp [hlog])
  refine ⟨song, note, measures, hsong, hnotes, ?_, hmeasures, ?_, ?_⟩
  · rw [Meter.beats_of_mul_eq h, hnote]
  · intro i m hm
    rw [hget] at hm
    split at hm
    · exact (Option.some.inj hm).symm
    · cases hm
  · have hfirst : number * beats = 0 ↔ number = 0 := by
      rw [Nat.mul_eq_zero, or_iff_left (Nat.one_le_iff_ne_zero.mp hbeats)]
    have hwhole : (((number : Int) * (beats : Int) : Int) : Rat) = (number * beats : Nat) := by
      push_cast
      rfl
    rw [← hfirst, ← Binary64.rounded_beats_iff hcount h, hget, hnote, ← Int.cast_natCast number,
      ← Int.cast_mul, hwhole]
    constructor
    · rintro ⟨m, hm, hsame⟩
      split at hm
      · next hlt =>
        obtain rfl := Option.some.inj hm
        exact ⟨hlt, hwhole ▸ Number.whole_same_finite.mp hsame⟩
      · cases hm
    · rintro ⟨hlt, heq⟩
      exact ⟨_, if_pos hlt, Number.whole_same_finite.mpr (hwhole.trans heq)⟩

/-- In the third measure of a waltz the note and the measure start with the sixth beat. -/
theorem ofText_downbeat_waltz :
    ∃ (song : Song Number) (note : Note Number) (measures : List (Sheet.Measure Number))
      (m : Sheet.Measure Number), (ofText (downbeat 3 4 2) .standard).result = .ok song ∧
      song.sheet.notes = [note] ∧ song.sheet.measures = .ok measures ∧
      measures[2]? = some m ∧ m = ⟨6, 3⟩ ∧ m.start.same note.start = true := by
  have hbeats : 1 ≤ 3 := by decide
  have hunit : 4 ∣ 192 := by decide
  have hlarge : 3 * (2 + 1) ≤ 2 ^ 53 := by decide
  have ho : ArrangementOptions.standard.defaultOctave.toInt = .ok 4 := rfl
  obtain ⟨song, note, measures, hsong, hnotes, -, hmeasures, hall, hiff⟩ :=
    ofText_downbeat hbeats hunit hlarge ho
  obtain ⟨m, hm, hsame⟩ := hiff.mpr (.inl rfl)
  exact ⟨song, note, measures, m, hsong, hnotes, hmeasures, hm, hall 2 m hm, hsame⟩

/-- Under a time signature in halves the note of the second measure starts at beat four, but that
measure of the song at beat two. -/
theorem ofText_downbeat_halves :
    ∃ (song : Song Number) (note : Note Number) (measures : List (Sheet.Measure Number))
      (m : Sheet.Measure Number), (ofText (downbeat 2 2 1) .standard).result = .ok song ∧
      song.sheet.notes = [note] ∧ song.sheet.measures = .ok measures ∧
      measures[1]? = some m ∧ m = ⟨2, 2⟩ ∧ note.start.same 4 = true ∧
      m.start.same note.start = false := by
  have hlayout : (ofText "ts2/2 m1 c" .standard).result.map (fun song : Song Number =>
      (song.sheet.notes.map Note.start, song.sheet.measures)) =
      .ok ([.approx (.finite 4)], .ok [⟨0, 2⟩, ⟨2, 2⟩, ⟨4, 2⟩]) := by
    decide +kernel
  obtain ⟨song, hsong, hlayout⟩ := Except.map_eq_ok_iff.mp hlayout
  obtain ⟨hnotes, hmeasures⟩ := Prod.mk.inj hlayout
  obtain ⟨note, hsingle, hstart⟩ := List.map_eq_singleton_iff.mp hnotes
  refine ⟨song, note, _, _, hsong, hsingle, hmeasures, rfl, rfl, ?_, ?_⟩
  · rw [hstart]
    decide +kernel
  · rw [hstart]
    decide +kernel

end Arrangement
end LeadSheet
