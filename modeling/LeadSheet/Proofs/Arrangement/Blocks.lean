import LeadSheet.Proofs.Accompaniment.Grid
import LeadSheet.Proofs.Arrangement.Order
import LeadSheet.Proofs.Song.Measures

/-!
Chord blocks and measures of an arrangement. The blocks of a song are cut on one grid, that of the
measures at its end, while its measures follow the log of the time signatures. A block stops with a
measure where the two agree on the end of it.
-/
namespace LeadSheet

/-- Beats reckoned from ticks are rounded once. -/
theorem Ticks.toBeats_eq_ok {t : Rat} {b : Number} (ht : 0 ≤ t) (h : toBeats t = .ok b) :
    ∃ x, b = .approx (.finite x) ∧ 0 ≤ x ∧ Binary64.rounded x = x := by
  have hq : 0 ≤ t / perBeat := div_nonneg ht (by decide)
  obtain ⟨y, hy, h⟩ := Except.bind_eq_ok_iff.mp h
  obtain rfl := Except.pure_eq_ok_iff.mp h
  obtain rfl := Number.nearest_eq_ok hq hy
  exact ⟨_, rfl, Binary64.rounded_nonneg hq, Binary64.rounded_rounded hq⟩

/-- A written time signature is logged with a whole number of beats. -/
theorem Stop.whole_of_mem_timeSignatures {α : Type} [Timebase α] {s : Stop α}
    (h : s.front.step s.command = .ok (s.behind, s.events)) (hw : s.command.Written)
    {entry : α × Datum} (he : entry ∈ s.events.filterMap Event.timeSignature?) :
    ∃ n : Int, entry.2 = .whole n := by
  have ht := Cursor.tells_of_step h
  cases hc : s.command with
  | timeSignature beats unit =>
    rw [hc] at ht hw
    obtain ⟨b, -, hevents⟩ := ht
    rw [hevents] at he
    obtain rfl := List.mem_singleton.mp he
    cases hw with
    | timeSignature n => exact ⟨n, rfl⟩
  | note name mark timing location =>
    rw [hc] at ht
    obtain ⟨name, start, duration, location, hevents⟩ := ht
    rw [hevents] at he
    cases he
  | clef | keySignature | remark =>
    rw [hc] at ht
    obtain ⟨b, -, hevents⟩ := ht
    rw [hevents] at he
    cases he
  | chord name =>
    rw [hc] at ht
    rcases ht with hevents | ⟨b, symbol, -, hevents⟩
    · rw [hevents] at he
      cases he
    · rw [hevents] at he
      cases he
  | _ =>
    rw [hc] at ht
    have hevents : s.events = _ := ht
    rw [hevents] at he
    cases he

namespace Arrangement

/-- What holds of the usual beats and of those logged holds of all in the log of a song, which is
never empty. -/
theorem forall_withFirstSignature {α : Type} [Timebase α] {P : Datum → Prop}
    {log log' : List (α × Datum)} (h : withFirstSignature log = .ok log')
    (husual : P (.whole Ticks.defaultBeats)) (hlog : ∀ entry ∈ log, P entry.2) :
    log' ≠ [] ∧ ∀ entry ∈ log', P entry.2 := by
  obtain ⟨zero, -, h⟩ := Except.bind_eq_ok_iff.mp h
  obtain rfl := Except.pure_eq_ok_iff.mp h
  split
  · exact ⟨List.cons_ne_nil _ _, List.forall_mem_singleton.mpr husual⟩
  · split
    · exact ⟨List.cons_ne_nil _ _, List.forall_mem_cons.mpr ⟨husual, hlog⟩⟩
    · exact ⟨List.cons_ne_nil _ _, hlog⟩

/-- A song whose chords and time signatures are those of a text that never jumps. -/
structure Timed (s : Sheet Number) : Prop where
  chords : ∀ chord ∈ s.chords, ∃ x, chord.1 = .approx (.finite x) ∧ 0 ≤ x ∧ Binary64.rounded x = x
  nonempty : s.timeSignatures ≠ []
  timeSignatures : ∀ entry ∈ s.timeSignatures, ∃ n : Int, entry.2 = .whole n

private theorem timed_ofText {text : String} {options : ArrangementOptions}
    {commands : List Command}
    {song : Song Number} (hp : parse text = .ok commands)
    (hj : ∀ leaf ∈ Command.leavesIn commands, leaf.jumps = false)
    (h : (ofText text options : Arrangement Number).result = .ok song) : Timed song.sheet := by
  obtain ⟨commands', octave, plain, hp', ho, hplain, hsong⟩ := result_ofText h
  obtain rfl : commands = commands' := Except.ok.inj (hp.symm.trans hp')
  obtain ⟨stops, last, metadata, timeSignatures, hrun, -, ht, hplain⟩ := plainSong_eq_ok hplain
  have hwritten := Command.written_of_parse hp
  have hasc := hrun.ascends (Cursor.steady_initial octave) hwritten hj
  have htimed : Timed plain.sheet := by
    obtain ⟨hne, hwhole⟩ := forall_withFirstSignature (P := fun beats => ∃ n : Int, beats = .whole n)
      ht ⟨4, rfl⟩ (by
        intro entry hentry
        rw [List.filterMap_flatMap] at hentry
        obtain ⟨s, hs, hentry⟩ := List.mem_flatMap.mp hentry
        exact Stop.whole_of_mem_timeSignatures (hrun.step_of_mem hs)
          (hwritten _ (hrun.leaf_of_mem hs)) hentry)
    rw [hplain]
    refine ⟨?_, hne, hwhole⟩
    intro chord hchord
    have hchord : chord ∈ (stops.flatMap Stop.events).filterMap Event.chord? := hchord
    obtain ⟨event, hevent, hc⟩ := List.mem_filterMap.mp hchord
    obtain ⟨s, hs, hevent⟩ := List.mem_flatMap.mp hevent
    have hbeat : chord.1 ∈ s.events.filterMap Event.beat? := by
      refine List.mem_filterMap.mpr ⟨event, hevent, ?_⟩
      cases event <;> cases hc
      rfl
    exact Ticks.toBeats_eq_ok (hasc.within s hs).1
      (Stop.toBeats_of_mem_beats (hrun.step_of_mem hs) hbeat)
  rcases accompanied_eq_ok hsong with rfl | ⟨-, -, -, new, -, rfl⟩
  · exact htimed
  · exact ⟨htimed.chords, htimed.nonempty, htimed.timeSignatures⟩

/-- In the song of a text that never jumps, a block of a chord that starts in front of the end of a
measure stops there at the latest, if that end lies on the grid of the last measure. So it does,
within the first beats, where the last measure has a whole number of beats that divides the beats of
all time signatures. -/
theorem ofText_blocks_in_measures {text : String} {options : ArrangementOptions}
    {commands : List Command} {song : Song Number} (hp : parse text = .ok commands)
    (hj : ∀ leaf ∈ Command.leavesIn commands, leaf.jumps = false)
    (h : (ofText text options : Arrangement Number).result = .ok song)
    {b : ChordBlock Number ChordSymbol} (hb : b ∈ (Accompaniment.blocks song.sheet).1.kept)
    {measures : List (Sheet.Measure Number)} (hmeasures : song.sheet.measures = .ok measures)
    {m : Sheet.Measure Number} (hm : m ∈ measures) {stop : Number}
    (hstop : m.start.add m.beats = .ok stop) (hlt : b.start.lt stop = true) :
    ∃ beats, song.sheet.metadata.beatsPerMeasure = some beats ∧
      (ChordBlocks.OnGrid beats stop → b.stop.le stop = true) ∧
      ∀ n, beats = .whole n → 0 < n →
        (∀ entry ∈ song.sheet.timeSignatures, ∃ k, entry.2 = .whole k ∧ n ∣ k) →
        stop.exact ≤ 2 ^ 50 → b.stop.le stop = true := by
  have htimed := timed_ofText hp hj h
  obtain ⟨beats, hbeats, hplaced⟩ := ChordBlocks.placed_of_mem_inMeasures hb
  obtain ⟨x, hstart, hx, hrounded⟩ : ∃ x, b.start = .approx (.finite x) ∧ 0 ≤ x ∧
      Binary64.rounded x = x := htimed.chords _ hplaced.mem
  have hone : ∀ entry ∈ song.sheet.timeSignatures, ∃ k, entry.2 = .whole k ∧ 1 ∣ k := by
    intro entry hentry
    obtain ⟨k, hk⟩ := htimed.timeSignatures entry hentry
    exact ⟨k, hk, one_dvd k⟩
  obtain ⟨start, count, rfl, -, -⟩ :=
    Sheet.whole_of_mem_measures htimed.nonempty hone hmeasures m hm
  obtain rfl : Number.whole (start + count) = stop := Except.ok.inj hstop
  have hgrid (hline : ChordBlocks.OnGrid beats (.whole (start + count))) :
      b.stop.le (.whole (start + count)) = true :=
    hplaced.stop_le hstart hx hrounded hline hlt
  refine ⟨beats, (Option.filter_eq_some_iff.mp hbeats).1, hgrid, ?_⟩
  rintro n rfl hpos hlog hlarge
  obtain ⟨start', count', heq, hstart', hcount'⟩ :=
    Sheet.whole_of_mem_measures htimed.nonempty hlog hmeasures _ hm
  obtain ⟨⟨rfl⟩, ⟨rfl⟩⟩ := Sheet.Measure.mk.inj heq
  rw [hstart, Number.finite_lt_whole] at hlt
  have hbound : ((start + count : Int) : Rat) ≤ (2 ^ 50 : Int) := hlarge.trans_eq (by norm_num)
  exact hgrid (ChordBlocks.onGrid_of_dvd hpos (hstart'.add hcount')
    (Int.cast_pos.mp (hx.trans_lt hlt)) (Int.cast_le.mp hbound))

/-- Blocks on a grid of two beats stop with the measure of four beats in front of it. -/
theorem ofText_blocks_in_measures_halved :
    ∃ (song : Song Number) (b : ChordBlock Number ChordSymbol)
      (measures : List (Sheet.Measure Number)),
      (ofText "ts4/4 c*2 $C c*2 ts2/4 c*2" ⟨.whole 4, .off, .none⟩ : Arrangement Number).result =
        .ok song ∧
      b ∈ (Accompaniment.blocks song.sheet).1.kept ∧ song.sheet.measures = .ok measures ∧
      ⟨0, 4⟩ ∈ measures ∧ b.start.lt 4 = true ∧ b.stop.le 4 = true := by
  have hread : (parse "ts4/4 c*2 $C c*2 ts2/4 c*2").map (fun commands =>
      (Command.leavesIn commands).all fun leaf => !leaf.jumps) = .ok true := by
    decide +kernel
  have hlayout : (ofText "ts4/4 c*2 $C c*2 ts2/4 c*2" ⟨.whole 4, .off, .none⟩ :
      Arrangement Number).result.map (fun song =>
        (song.sheet.measures, (Accompaniment.blocks song.sheet).1.kept,
          song.sheet.metadata.beatsPerMeasure, song.sheet.timeSignatures.map Prod.snd)) =
      .ok (.ok [⟨0, 4⟩, ⟨4, 2⟩],
        [⟨.approx (.finite 2), .approx (.finite 4), ⟨"C", .named "M"⟩⟩], some 2,
        [.whole 4, .whole 2]) := by
    decide +kernel
  obtain ⟨commands, hp, hj⟩ := Except.map_eq_ok_iff.mp hread
  have hj : ∀ leaf ∈ Command.leavesIn commands, leaf.jumps = false :=
    fun leaf hl => by simpa using List.all_eq_true.mp hj leaf hl
  obtain ⟨song, hsong, hlayout⟩ := Except.map_eq_ok_iff.mp hlayout
  obtain ⟨hmeasures, hlayout⟩ := Prod.mk.inj hlayout
  obtain ⟨hkept, hlayout⟩ := Prod.mk.inj hlayout
  obtain ⟨hbeats, hlog⟩ := Prod.mk.inj hlayout
  have hblock : (⟨.approx (.finite 2), .approx (.finite 4), ⟨"C", .named "M"⟩⟩ :
      ChordBlock Number ChordSymbol) ∈ (Accompaniment.blocks song.sheet).1.kept :=
    hkept ▸ List.mem_singleton_self _
  have hlt : (Number.approx (.finite 2)).lt 4 = true := by decide +kernel
  have hdvd : ∀ entry ∈ song.sheet.timeSignatures, ∃ k, entry.2 = .whole k ∧ (2 : Int) ∣ k := by
    intro entry hentry
    have hbeat : entry.2 ∈ [Datum.whole 4, Datum.whole 2] := hlog ▸ List.mem_map_of_mem hentry
    rcases List.mem_pair.mp hbeat with h | h
    · exact ⟨4, h, by decide⟩
    · exact ⟨2, h, by decide⟩
  have hend : Number.add 0 4 = .ok 4 := rfl
  obtain ⟨beats, hbpm, -, hwhole⟩ := ofText_blocks_in_measures hp hj hsong hblock hmeasures
    (List.mem_cons_self ..) hend hlt
  obtain rfl : (2 : Number) = beats := Option.some.inj (hbeats.symm.trans hbpm)
  exact ⟨song, _, _, hsong, hblock, hmeasures, List.mem_cons_self .., hlt,
    hwhole 2 rfl (by decide) hdvd (by decide +kernel)⟩

/-- Blocks on a grid of four beats go on behind the first measure of two beats. -/
theorem ofText_block_over_measure :
    ∃ (commands : List Command) (song : Song Number) (b : ChordBlock Number ChordSymbol)
      (measures : List (Sheet.Measure Number)),
      parse "ts2/4 $C c*2 ts4/4 c*2" = .ok commands ∧
      (∀ leaf ∈ Command.leavesIn commands, leaf.jumps = false) ∧
      (ofText "ts2/4 $C c*2 ts4/4 c*2" ⟨.whole 4, .off, .none⟩ : Arrangement Number).result =
        .ok song ∧
      b ∈ (Accompaniment.blocks song.sheet).1.kept ∧ song.sheet.measures = .ok measures ∧
      ⟨0, 2⟩ ∈ measures ∧ Number.le 0 b.start = true ∧ b.start.lt 2 = true ∧
      b.stop.le 2 = false := by
  have hread : (parse "ts2/4 $C c*2 ts4/4 c*2").map (fun commands =>
      (Command.leavesIn commands).all fun leaf => !leaf.jumps) = .ok true := by
    decide +kernel
  have hlayout : (ofText "ts2/4 $C c*2 ts4/4 c*2" ⟨.whole 4, .off, .none⟩ :
      Arrangement Number).result.map (fun song =>
        (song.sheet.measures, (Accompaniment.blocks song.sheet).1.kept)) =
      .ok (.ok [⟨0, 2⟩, ⟨2, 4⟩],
        [⟨.approx (.finite 0), .approx (.finite 4), ⟨"C", .named "M"⟩⟩]) := by
    decide +kernel
  obtain ⟨commands, hp, hj⟩ := Except.map_eq_ok_iff.mp hread
  obtain ⟨song, hsong, hlayout⟩ := Except.map_eq_ok_iff.mp hlayout
  obtain ⟨hmeasures, hkept⟩ := Prod.mk.inj hlayout
  refine ⟨commands, song, _, _, hp, ?_, hsong, hkept ▸ List.mem_singleton_self _, hmeasures,
    List.mem_cons_self .., ?_, ?_, ?_⟩
  · exact fun leaf hl => by simpa using List.all_eq_true.mp hj leaf hl
  · decide +kernel
  · decide +kernel
  · decide +kernel

end Arrangement
end LeadSheet
