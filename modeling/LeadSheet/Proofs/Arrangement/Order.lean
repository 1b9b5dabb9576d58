import LeadSheet.Proofs.Arrangement.Tracks
import LeadSheet.Proofs.Timeline.Order
import Mathlib.Data.List.Pairwise

/-!
The order of time in an arrangement. Of a text that never jumps, the notes that are placed by the
position follow each other without overlaps, and what changes over time is logged in ascending order.
-/
namespace LeadSheet
variable {α : Type}

/-- The beat at which an event is logged. Notes are not logged. -/
def Event.beat? : Event α → Option α
  | clef _ beat _ | keySignature beat _ _ | timeSignature beat _ | chord beat _ | remark beat _ =>
    some beat
  | note .. | unknown _ => none

/-- What is logged of some events is logged at beats of these events, in their order. -/
theorem Event.sublist_beats {β : Type} {log : Event α → Option β} {beat : β → α}
    (h : ∀ event entry, log event = some entry → event.beat? = some (beat entry))
    (events : List (Event α)) :
    ((events.filterMap log).map beat).Sublist (events.filterMap Event.beat?) := by
  induction events with
  | nil => exact .slnil
  | cons event events ih =>
    cases hl : log event with
    | none =>
      rw [List.filterMap_cons_none hl]
      refine ih.trans ?_
      rw [List.filterMap_cons]
      split
      · exact .refl _
      · exact List.sublist_cons_self _ _
    | some entry =>
      rw [List.filterMap_cons_some hl, List.filterMap_cons_some (h event entry hl), List.map_cons]
      exact ih.cons_cons _

/-- Beats none of which is before one that stands in front of it. -/
def Ascending (beats : List Number) : Prop := beats.Pairwise fun a b => a.le b = true

/-- The logs of a sheet are in the order of time. -/
structure Sheet.Chronological (s : Sheet Number) : Prop where
  chords : Ascending (s.chords.map Prod.fst)
  clefs : Ascending (s.clefs.map Prod.fst)
  remarks : Ascending (s.remarks.map Prod.fst)
  timeSignatures : Ascending (s.timeSignatures.map Prod.fst)
  keySignatures : Ascending (s.keySignatures.map KeyChange.beat)

namespace Song

private theorem chronological_ofEvents {events : List (Event Number)}
    (h : Ascending (events.filterMap Event.beat?)) :
    (ofEvents events).sheet.Chronological ∧
      ∀ track ∈ (ofEvents events).tracks, track.2.Chronological := by
  have hlog {β : Type} {log : Event Number → Option β} {beat : β → Number}
      (hl : ∀ event entry, log event = some entry → event.beat? = some (beat entry)) :
      Ascending ((events.filterMap log).map beat) := h.sublist (Event.sublist_beats hl events)
  constructor
  · refine ⟨hlog ?_, .nil, hlog ?_, hlog ?_, hlog ?_⟩
    all_goals
      intro event entry he
      cases event <;> cases he
      rfl
  · intro track ht
    obtain ⟨number, -, rfl⟩ := List.mem_map.mp ht
    refine ⟨.nil, hlog ?_, .nil, .nil, .nil⟩
    intro event entry he
    cases event with
    | clef track beat sign =>
      obtain ⟨-, he⟩ := Option.ite_none_right_eq_some.mp he
      obtain rfl := Option.some.inj he
      rfl
    | _ => cases he

end Song

/-! ### Beats and ticks of a run -/

namespace Stop

/-- What is logged at a stop is logged at the beat of the position. -/
theorem toBeats_of_mem_beats [Timebase α] {s : Stop α}
    (h : s.front.step s.command = .ok (s.behind, s.events)) {b : α}
    (hb : b ∈ s.events.filterMap Event.beat?) : Ticks.toBeats s.front.position = .ok b := by
  have ht := Cursor.tells_of_step h
  cases hc : s.command with
  | clef | keySignature | timeSignature | remark =>
    rw [hc] at ht
    obtain ⟨b', hb', he⟩ := ht
    rw [he] at hb
    obtain rfl := List.mem_singleton.mp hb
    exact hb'
  | chord name =>
    rw [hc] at ht
    rcases ht with he | ⟨b', symbol, hb', he⟩
    · rw [he] at hb
      cases hb
    · rw [he] at hb
      obtain rfl := List.mem_singleton.mp hb
      exact hb'
  | note name mark timing location =>
    rw [hc] at ht
    obtain ⟨name, start, duration, location, he⟩ := ht
    rw [he] at hb
    cases hb
  | _ =>
    rw [hc] at ht
    have he : s.events = _ := ht
    rw [he] at hb
    cases hb

/-- The ticks at which the note of a stop starts and for which it lasts. A note with a start of its
own has none here. -/
def ticks? (s : Stop α) : Option (Rat × Int) :=
  match s.command with
  | .note _ _ timing _ =>
    if timing.start.isSome then none
    else (s.front.length timing).toOption.map fun length => (s.front.position, length)
  | _ => none

/-- A note has the times of a stop at a note command: unless it has a start of its own, it starts and
lasts as the ticks say. -/
def Times [Timebase α] (s : Stop α) (n : Note α) : Prop :=
  ∃ name mark timing location, s.command = .note name mark timing location ∧
    (timing.start = none → ∃ ticks ∈ s.ticks?, Ticks.toBeats ticks.1 = .ok n.start ∧
      Ticks.toBeats (ticks.2 : Rat) = .ok n.duration)

variable [Timebase α] {s : Stop α}

private theorem ticks_of_step (h : s.front.step s.command = .ok (s.behind, s.events))
    {ticks : Rat × Int}
    (ht : s.ticks? = some ticks) :
    ticks.1 = s.front.position ∧ ticks.1 + ticks.2 = s.behind.position := by
  rw [ticks?] at ht
  split at ht
  · next name mark timing location hc =>
    rw [hc] at h
    obtain ⟨length, p, hl, hd⟩ := Cursor.moves_of_step h
    split at ht
    · cases ht
    · next hs =>
      rw [hl] at ht
      obtain rfl := Option.some.inj ht
      rw [hd]
      simp [hs]
  · cases ht

private theorem times_of_makes (h : s.front.step s.command = .ok (s.behind, s.events))
    (hn : s.command.isNote = true) {note : Note α} (hm : s.Makes note) : s.Times note := by
  cases hc : s.command with
  | note name mark timing location =>
    refine ⟨name, mark, timing, location, hc, ?_⟩
    intro hs
    rw [hc] at h
    obtain ⟨length, _, start, position, _, beat, duration, _, hl, -, hp, -, hb, hd, -, -, he⟩ :=
      Cursor.note_eq_ok h
    rw [Makes, he] at hm
    obtain ⟨-, -, rfl, rfl, -⟩ := Event.note.inj (List.head_eq_of_cons_eq hm)
    rw [Cursor.place, hs] at hp
    obtain ⟨rfl, -⟩ := Prod.mk.inj (Except.ok.inj hp)
    refine ⟨(s.front.position, length), ?_, hb, hd⟩
    simp [ticks?, hc, hs, hl, Except.toOption]
  | _ =>
    rw [hc] at hn
    cases hn

end Stop

namespace Cursor.Ascends
variable {c e : Cursor}

/-- The events of a run are logged at ascending beats. -/
theorem ascending {stops : List (Stop Number)} (h : Ascends c stops e) (h0 : 0 ≤ c.position)
    (hs : ∀ s ∈ stops, s.front.step s.command = .ok (s.behind, s.events)) :
    Ascending ((stops.flatMap Stop.events).filterMap Event.beat?) := by
  rw [List.filterMap_flatMap, Ascending, List.pairwise_flatMap]
  constructor
  · intro s hmem
    apply List.pairwise_of_forall_mem_list
    intro a ha b hb
    have hpos : 0 ≤ s.front.position := h0.trans (h.within s hmem).1
    exact Ticks.toBeats_mono hpos le_rfl (Stop.toBeats_of_mem_beats (hs s hmem) ha)
      (Stop.toBeats_of_mem_beats (hs s hmem) hb)
  · refine h.apart.imp_of_mem ?_
    intro s t hsmem htmem hst a ha b hb
    have hpos : 0 ≤ s.front.position := h0.trans (h.within s hsmem).1
    exact Ticks.toBeats_mono hpos ((h.within s hsmem).2.1.trans hst)
      (Stop.toBeats_of_mem_beats (hs s hsmem) ha) (Stop.toBeats_of_mem_beats (hs t htmem) hb)

/-- The notes of a run that are placed by the position follow each other without overlaps. -/
theorem pairwise_ticks [Timebase α] {stops : List (Stop α)} (h : Ascends c stops e)
    (hs : ∀ s ∈ stops, s.front.step s.command = .ok (s.behind, s.events)) :
    (∀ ticks ∈ stops.filterMap Stop.ticks?, 0 ≤ ticks.2) ∧
      (stops.filterMap Stop.ticks?).Pairwise fun a b => a.1 + (a.2 : Rat) ≤ b.1 := by
  constructor
  · intro ticks ht
    obtain ⟨s, hmem, ht⟩ := List.mem_filterMap.mp ht
    obtain ⟨hfront, hbehind⟩ := Stop.ticks_of_step (hs s hmem) ht
    have hle : ticks.1 ≤ ticks.1 + ticks.2 := by
      rw [hbehind, hfront]
      exact (h.within s hmem).2.1
    exact Int.cast_nonneg_iff.mp (nonneg_of_le_add_right hle)
  · rw [List.pairwise_filterMap]
    refine h.apart.imp_of_mem ?_
    intro s t hsmem htmem hst a ha b hb
    rw [(Stop.ticks_of_step (hs s hsmem) ha).2, (Stop.ticks_of_step (hs t htmem) hb).1]
    exact hst

end Cursor.Ascends

namespace Arrangement

/-- The first signature stands in front of what was logged. -/
theorem ascending_withFirstSignature {log log' : List (Number × Datum)}
    (h : withFirstSignature log = .ok log') (hlog : Ascending (log.map Prod.fst))
    (hbeat : ∀ b ∈ log.map Prod.fst, ∃ p : Rat, 0 ≤ p ∧ Ticks.toBeats p = .ok b) :
    Ascending (log'.map Prod.fst) := by
  obtain ⟨zero, hz, h⟩ := Except.bind_eq_ok_iff.mp h
  obtain rfl := Except.pure_eq_ok_iff.mp h
  have hzero : Ticks.toBeats 0 = .ok zero := by rwa [Ticks.toBeats, zero_div]
  split
  · exact List.pairwise_singleton _ _
  · split
    · refine List.pairwise_cons.mpr ⟨?_, hlog⟩
      intro b hb
      obtain ⟨p, hp, hpb⟩ := hbeat b hb
      exact Ticks.toBeats_mono le_rfl hp hzero hpb
    · exact hlog

/-- A text that never jumps makes a song in the order of time. Its notes without starts of their own
last, in ticks, until the next one starts or less long; the logs of the song and its tracks ascend. -/
theorem ofText_chronological {text : String} {options : ArrangementOptions}
    {commands : List Command} {song : Song Number} (hp : parse text = .ok commands)
    (hj : ∀ leaf ∈ Command.leavesIn commands, leaf.jumps = false)
    (h : (ofText text options : Arrangement Number).result = .ok song) :
    ∃ (octave : Int) (stops : List (Stop Number)) (last : Cursor)
      (written generated : List (Note Number)),
      options.defaultOctave.toInt = .ok octave ∧
      Cursor.Run (.initial octave) commands stops last ∧
      song.sheet.notes = written ++ generated ∧
      List.Forall₂ Stop.Times (stops.filter fun stop => stop.command.isNote) written ∧
      (∀ ticks ∈ stops.filterMap Stop.ticks?, 0 ≤ ticks.2) ∧
      ((stops.filterMap Stop.ticks?).Pairwise fun a b => a.1 + (a.2 : Rat) ≤ b.1) ∧
      song.sheet.Chronological ∧ ∀ track ∈ song.tracks, track.2.Chronological := by
  obtain ⟨commands', octave, plain, hp', ho, hplain, hsong⟩ := result_ofText h
  obtain rfl : commands = commands' := Except.ok.inj (hp.symm.trans hp')
  obtain ⟨stops, last, metadata, timeSignatures, hrun, -, ht, hplain⟩ := plainSong_eq_ok hplain
  have hstep : ∀ s ∈ stops, s.front.step s.command = .ok (s.behind, s.events) :=
    fun s => hrun.step_of_mem
  have hasc := hrun.ascends (Cursor.steady_initial octave) (Command.written_of_parse hp) hj
  have hticks := hasc.pairwise_ticks hstep
  have hbeats := hasc.ascending le_rfl hstep
  have hlogs : plain.sheet.Chronological ∧ ∀ track ∈ plain.tracks, track.2.Chronological := by
    obtain ⟨hsheet, htracks⟩ := Song.chronological_ofEvents hbeats
    rw [hplain]
    refine ⟨{ hsheet with timeSignatures := ?_ }, htracks⟩
    apply ascending_withFirstSignature ht hsheet.timeSignatures
    intro b hb
    obtain ⟨entry, hentry, rfl⟩ := List.mem_map.mp hb
    obtain ⟨event, hevent, he⟩ := List.mem_filterMap.mp hentry
    obtain ⟨s, hs, hevent⟩ := List.mem_flatMap.mp hevent
    refine ⟨s.front.position, (hasc.within s hs).1, Stop.toBeats_of_mem_beats (hstep s hs) ?_⟩
    refine List.mem_filterMap.mpr ⟨event, hevent, ?_⟩
    cases event <;> cases he
    rfl
  have hnotes : List.Forall₂ Stop.Times (stops.filter fun stop => stop.command.isNote)
      plain.sheet.notes := by
    have hmem : ∀ stop ∈ stops.filter fun stop => stop.command.isNote,
        stop ∈ stops ∧ stop.command.isNote = true := fun _ => List.mem_filter.mp
    rw [hplain]
    refine List.forall₂_map_right_iff.mpr ?_
    refine ((List.forall₂_and_left _ _).mpr ⟨hmem, hrun.forall₂_notesOf⟩).imp ?_
    rintro s push ⟨⟨hs, hn⟩, -, hm⟩
    exact Stop.times_of_makes (hstep s hs) hn hm
  rcases accompanied_eq_ok hsong with rfl | ⟨-, -, -, new, -, rfl⟩
  · exact ⟨octave, stops, last, _, [], ho, hrun, (List.append_nil _).symm, hnotes, hticks.1, hticks.2,
      hlogs⟩
  · refine ⟨octave, stops, last, _, new, ho, hrun, rfl, hnotes, hticks.1, hticks.2, ?_, ?_⟩
    · exact ⟨hlogs.1.chords, hlogs.1.clefs, hlogs.1.remarks, hlogs.1.timeSignatures,
        hlogs.1.keySignatures⟩
    · intro track htrack
      rcases List.mem_append.mp htrack with htrack | htrack
      · exact hlogs.2 track htrack
      · obtain rfl := List.mem_singleton.mp htrack
        exact ⟨.nil, .nil, .nil, .nil, .nil⟩

theorem ofText_chronological_measures :
    ∃ song, (ofText "c4 m \x7bht d\x7d" ⟨.whole 4, .off, .none⟩ : Arrangement Number).result =
        .ok song ∧ song.sheet.Chronological := by
  have hp : parse "c4 m \x7bht d\x7d" = .ok [.note "C4" none .plain (some (.span ⟨0, 2⟩)),
      .measure none, .block [.tempo .half none, .note "D" none .plain (some (.span ⟨9, 10⟩))]] := by
    rfl
  have hj : ∀ leaf ∈ Command.leavesIn [.note "C4" none .plain (some (.span ⟨0, 2⟩)), .measure none,
      .block [.tempo .half none, .note "D" none .plain (some (.span ⟨9, 10⟩))]],
      leaf.jumps = false := by
    simp [Command.leavesIn, Command.leaves, Command.jumps]
  obtain ⟨song, h⟩ : ∃ song, (ofText "c4 m \x7bht d\x7d" ⟨.whole 4, .off, .none⟩ :
      Arrangement Number).result = .ok song := Except.exists_eq_ok (by decide +kernel)
  obtain ⟨_, _, _, _, _, -, -, -, -, -, -, hlogs, -⟩ := ofText_chronological hp hj h
  exact ⟨song, h, hlogs⟩

end Arrangement
end LeadSheet
