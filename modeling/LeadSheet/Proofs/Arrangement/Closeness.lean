import LeadSheet.Proofs.Arrangement.Tracks
import LeadSheet.Proofs.Rows
import LeadSheet.Proofs.Timeline.Reference

/-!
How far a note without octave lies from the note before it. It is put into the octave in which it is
closest, and in no song is that more than half an octave away, unless the note before lies below the
middle of the lowest octave.
-/
namespace LeadSheet
open NoteName (inParts IsClosest)
variable {α : Type}

/-- What the note with an index is to be close to if it is written without octave: the note before
it, and for the first one the default pitch. -/
def referenceAt (defaultPitch : Int) (notes : List (Note α)) : Nat → Option Int
  | 0 => some defaultPitch
  | i + 1 => notes[i]?.bind fun note => NoteName.pitch? note.name

private theorem referenceAt_append {defaultPitch reference : Int} {notes : List (Note α)} {i : Nat}
    (h : referenceAt defaultPitch notes i = some reference) (new : List (Note α)) :
    referenceAt defaultPitch (notes ++ new) i = some reference := by
  cases i with
  | zero => exact h
  | succ i =>
    obtain ⟨note, hnote, hp⟩ := Option.bind_eq_some_iff.mp h
    refine Option.bind_eq_some_iff.mpr ⟨note, ?_, hp⟩
    exact (List.getElem?_append_left (List.getElem?_eq_some_iff.mp hnote).1).trans hnote

namespace Stop
variable [Timebase α] {s : Stop α}

/-- A note is made with a name that has a pitch, which is the reference behind it. -/
theorem soundingName_of_makes (h : s.front.step s.command = .ok (s.behind, s.events))
    (hn : s.command.isNote = true) {note : Note α} (hm : s.Makes note) :
    NoteName.pitch note.name = .ok s.behind.reference ∧ ∃ name mark timing location,
      s.command = .note name mark timing location ∧ s.front.soundingName name mark = .ok note.name := by
  cases hc : s.command with
  | note name mark timing location =>
    rw [hc] at h
    obtain ⟨_, sounding, _, _, p, _, _, _, -, hs, -, hp, -, -, -, hd, he⟩ := Cursor.note_eq_ok h
    rw [Makes, he] at hm
    obtain ⟨-, rfl, -⟩ := Event.note.inj (List.head_eq_of_cons_eq hm)
    refine ⟨?_, name, mark, timing, location, rfl, hs⟩
    rw [hp, hd]
    rfl
  | _ =>
    rw [hc] at hn
    cases hn

private theorem isClosest_of_makes (h : s.front.step s.command = .ok (s.behind, s.events))
    (hn : s.command.isNote = true) (hl : s.command.lacksOctave = true) {note : Note α}
    (hm : s.Makes note) : ∃ letter alteration octave,
      note.name = inParts letter alteration (some octave) ∧
        IsClosest letter alteration s.front.reference octave := by
  obtain ⟨hp, name, mark, timing, location, hc, hs⟩ := soundingName_of_makes h hn hm
  rw [hc, Command.lacksOctave, Bool.not_eq_true'] at hl
  exact Cursor.soundingName_of_lacks hl hs hp

end Stop

namespace Cursor.Run
variable [Timebase α] {c e : Cursor} {commands : List Command} {stops : List (Stop α)}

/-- The note of a note command is made at a stop whose reference is the note before. -/
theorem exists_stop_getElem? (h : Run c commands stops e) {i : Nat} {command : Command}
    (hi : ((Command.leavesIn commands).filter Command.isNote)[i]? = some command) :
    ∃ stop ∈ stops, stop.command = command ∧ stop.command.isNote = true ∧
      ∃ note, stop.Makes note ∧
        ((Song.notesOf (stops.flatMap Stop.events)).map Prod.snd)[i]? = some note ∧
        referenceAt c.reference ((Song.notesOf (stops.flatMap Stop.events)).map Prod.snd) i =
          some stop.front.reference := by
  have hmade {j : Nat} {stop : Stop α}
      (hj : (stops.filter fun stop => stop.command.isNote)[j]? = some stop) :
      ∃ note, stop.Makes note ∧
        ((Song.notesOf (stops.flatMap Stop.events)).map Prod.snd)[j]? = some note := by
    have hpush := forall₂_getElem? h.forall₂_notesOf j
    rw [hj] at hpush
    rw [List.getElem?_map]
    generalize (Song.notesOf (stops.flatMap Stop.events))[j]? = push at hpush ⊢
    cases hpush with
    | some hpush => exact ⟨_, hpush.2, rfl⟩
  rw [← h.map_command_notes, List.getElem?_map] at hi
  obtain ⟨stop, hstop, hcommand⟩ := Option.map_eq_some_iff.mp hi
  obtain ⟨hmem, hn⟩ := List.mem_filter.mp (List.mem_of_getElem? hstop)
  obtain ⟨note, hm, hnote⟩ := hmade hstop
  refine ⟨stop, hmem, hcommand, hn, note, hm, hnote, ?_⟩
  rcases h.linked_notes.front_reference hstop with ⟨rfl, hr⟩ | ⟨j, before, rfl, hbefore, hr⟩
  · exact congrArg some hr.symm
  · obtain ⟨hmem', hn'⟩ := List.mem_filter.mp (List.mem_of_getElem? hbefore)
    obtain ⟨note', hm', hnote'⟩ := hmade hbefore
    have hp := (Stop.soundingName_of_makes (h.step_of_mem hmem') hn' hm').1
    rw [referenceAt, hnote', Option.bind_some, hr]
    exact NoteName.pitch_eq_ok_iff.mp hp

end Cursor.Run

namespace Arrangement
variable [Timebase α]

/-- A letter with an alteration is put into the octave where it is closest to the reference, of two
such octaves into that of the reference. So a note that is written without octave, at any depth of the
commands of a song, has no octave closer to the note before it, or to the default pitch if it is the
first one; from the middle of the lowest octave upwards it lies half an octave away at most. -/
theorem closest_to_reference :
    (∀ (letter : Letter) (alteration : Alteration) (reference : Int), ∃ octave : Nat,
      NoteName.closestOctave (inParts letter alteration none) reference =
          .ok (inParts letter alteration (some octave)) ∧
        IsClosest letter alteration reference octave) ∧
    ∀ {commands : List Command} {options : ArrangementOptions} {octave : Int} {song : Song α},
      options.defaultOctave.toInt = .ok octave →
      (ofCommands commands options : Arrangement α).result = .ok song →
      ∀ (i : Nat) (command : Command),
        ((Command.leavesIn commands).filter Command.isNote)[i]? = some command →
        command.lacksOctave = true →
        ∃ (note : Note α) (reference : Int) (letter : Letter) (alteration : Alteration)
          (octave' : Nat) (p : Int),
          song.sheet.notes[i]? = some note ∧
          referenceAt ((octave + 1) * octaveSize) song.sheet.notes i = some reference ∧
          note.name = inParts letter alteration (some octave') ∧
          IsClosest letter alteration reference octave' ∧
          NoteName.pitch note.name = .ok p ∧ (18 ≤ reference → (p - reference).natAbs ≤ 6) := by
  refine ⟨NoteName.exists_closestOctave, ?_⟩
  intro commands options octave song ho h i command hi hl
  obtain ⟨octave', plain, ho', hplain, hsong⟩ := result_ofCommands h
  obtain rfl : octave = octave' := Except.ok.inj (ho.symm.trans ho')
  obtain ⟨stops, last, metadata, timeSignatures, hrun, -, -, hplain⟩ := plainSong_eq_ok hplain
  obtain ⟨stop, hmem, rfl, hn, note, hm, hnote, hreference⟩ := hrun.exists_stop_getElem? hi
  obtain ⟨letter, alteration, found, hname, hclosest⟩ :=
    Stop.isClosest_of_makes (hrun.step_of_mem hmem) hn hl hm
  -- an accompaniment stands behind what is written
  obtain ⟨new, hnotes⟩ : ∃ new, song.sheet.notes =
      (Song.notesOf (stops.flatMap Stop.events)).map Prod.snd ++ new := by
    rcases accompanied_eq_ok hsong with rfl | ⟨-, -, -, new, -, rfl⟩
    · exact ⟨[], by rw [hplain, List.append_nil]; rfl⟩
    · exact ⟨new, by rw [hplain]; rfl⟩
  refine ⟨note, stop.front.reference, letter, alteration, found, _, ?_, ?_, hname, hclosest,
    hname ▸ NoteName.pitch_inParts letter alteration found, hclosest.distanceIn_le⟩
  · rw [hnotes]
    exact (List.getElem?_append_left (List.getElem?_eq_some_iff.mp hnote).1).trans hnote
  · rw [hnotes]
    exact referenceAt_append hreference new

theorem closest_to_reference_tritone :
    ∃ (song : Song Number) (note : Note Number) (p : Int),
      (ofCommands [.keySignature (.whole 2) none, .note "F" none .plain none] .standard :
        Arrangement Number).result = .ok song ∧
      song.sheet.notes[0]? = some note ∧ NoteName.pitch note.name = .ok p ∧ (p - 60).natAbs ≤ 6 := by
  obtain ⟨song, h⟩ : ∃ song, (ofCommands [.keySignature (.whole 2) none, .note "F" none .plain none]
      .standard : Arrangement Number).result = .ok song := Except.exists_eq_ok (by decide +kernel)
  have ho : ArrangementOptions.standard.defaultOctave.toInt = .ok 4 := rfl
  obtain ⟨note, reference, _, _, _, p, hnote, hreference, -, -, hp, hnear⟩ :=
    closest_to_reference.2 ho h 0 (.note "F" none .plain none) rfl (by decide)
  obtain rfl : 60 = reference := Option.some.inj hreference
  exact ⟨song, note, p, h, hnote, hp, hnear (by decide)⟩

end Arrangement
end LeadSheet
