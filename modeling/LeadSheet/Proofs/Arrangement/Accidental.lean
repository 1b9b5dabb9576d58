import LeadSheet.Proofs.Arrangement
import LeadSheet.Proofs.Arrangement.Stages
import LeadSheet.Proofs.Timeline.Duration

/-!
Accidentals that are shown and read again. A key asks for an accidental in front of a note where the
note is not what the key makes of its letter, and only there. So a note that is written without its
sign, and with this accidental, is compiled to the note itself.
-/
namespace LeadSheet
open NoteName (inParts)

/-- The accidental that a note with an alteration is written with. -/
def Alteration.mark : Alteration → Mark
  | natural => .natural | sharp => .sharp | flat => .flat

/-- How a key signature tells which accidental to show. -/
def Mark.shown : Mark → Int
  | natural => 0 | sharp => 1 | flat => -1

namespace KeySignature

/-- The accidental in front of a note: none if the note is what the key makes of its letter. -/
def markOf (key : KeySignature) (letter : Letter) (alteration : Alteration) : Option Mark :=
  if key.alterationOf letter = alteration then none else some alteration.mark

/-- Letters are altered by keys with sharps and by keys with flats only. -/
theorem isFlat_eq_of_altered {key : KeySignature} {letter : Letter}
    (h : key.alteredLetters.contains letter = true) : key.isFlat = !key.isSharp := by
  have hcount : key.count ≠ 0 := by
    intro hcount
    rw [alteredLetters, hcount] at h
    cases h
  rw [isFlat, isSharp, ← decide_not, decide_eq_decide]
  omega

private theorem shownAccidental_inParts (key : KeySignature) (letter : Letter)
    (alteration : Alteration)
    (octave : Nat) : key.shownAccidental (inParts letter alteration (some octave)) =
      .ok ((key.markOf letter alteration).map Mark.shown) := by
  have hhead : NoteName.head (inParts letter alteration (some octave)) =
      .ok (letter, alteration, (toString (octave : Int)).toList) := by
    have hparts : NoteName.head? (inParts letter alteration (some octave)).toList =
        some (letter, alteration, (toString (octave : Int)).toList) := by
      rw [inParts, String.toList_ofList]
      exact NoteName.head?_of_octave letter alteration octave
    rw [NoteName.head, hparts]
  rw [shownAccidental, hhead, markOf, alterationOf]
  change Except.ok _ = Except.ok _
  cases haltered : key.alteredLetters.contains letter with
  | false => cases alteration <;> simp [Alteration.mark, Mark.shown]
  | true =>
    have hflat := isFlat_eq_of_altered haltered
    cases hsharp : key.isSharp <;> cases alteration <;>
      simp [KeySignature.alteration, hflat, hsharp, Alteration.mark, Mark.shown]

end KeySignature

namespace Cursor

/-- A note that is written with the accidental for its alteration has the alteration, whatever the
key. -/
theorem soundingName_mark (c : Cursor) (letter : Letter) (alteration : Alteration) (octave : Nat) :
    c.soundingName (inParts letter .natural (some octave)) (some alteration.mark) =
      .ok (inParts letter alteration (some octave)) := by
  cases alteration with
  | natural => exact c.soundingName_octave letter .natural octave
  | sharp =>
    rw [Alteration.mark, soundingName_sharp, withSign_inParts]
    exact c.soundingName_octave letter .sharp octave
  | flat =>
    rw [Alteration.mark, soundingName_flat, withSign_inParts]
    exact c.soundingName_octave letter .flat octave

/-- A note without an accidental is what the key makes of its letter. -/
theorem soundingName_unmarked {c : Cursor} {count : Int} (h : c.key.toInt = .ok count)
    (letter : Letter) (octave : Nat) :
    c.soundingName (inParts letter .natural (some octave)) none =
      .ok (inParts letter ((KeySignature.accidentals count).alterationOf letter) (some octave)) := by
  rw [soundingName_none, KeySignature.soundingUnder_inParts h]
  exact c.soundingName_octave letter _ octave

/-- The accidental that a key asks for makes the note that it was asked for. -/
theorem soundingName_markOf {c : Cursor} {count : Int} (h : c.key.toInt = .ok count)
    (letter : Letter) (alteration : Alteration) (octave : Nat) :
    c.soundingName (inParts letter .natural (some octave))
        ((KeySignature.accidentals count).markOf letter alteration) =
      .ok (inParts letter alteration (some octave)) := by
  rw [KeySignature.markOf]
  split
  · next hsame => rw [soundingName_unmarked h, hsame]
  · exact c.soundingName_mark letter alteration octave

/-- Where a note is made it has its sounding name. -/
theorem name_of_step {α : Type} [Timebase α] {c d : Cursor} {name sounding : String}
    {mark : Option Mark} {timing : Timing} {location : Option Location} {events : List (Event α)}
    (hs : c.soundingName name mark = .ok sounding)
    (h : c.step (.note name mark timing location) = .ok (d, events)) :
    ∃ start duration place, events = [.note c.track sounding start duration place] := by
  obtain ⟨_, sounding', _, _, _, start, duration, place, -, hs', -, -, -, -, -, -, he⟩ :=
    note_eq_ok h
  obtain rfl : sounding = sounding' := Except.ok.inj (hs.symm.trans hs')
  exact ⟨start, duration, place, he⟩

end Cursor

namespace Arrangement

/-- A key signature and a note make a song of one note. -/
theorem result_keyed_note {options : ArrangementOptions} {octave : Int}
    (ho : options.defaultOctave.toInt = .ok octave) (count : Int) {name sounding : String}
    {mark : Option Mark} {p : Int} (hp : NoteName.pitch sounding = .ok p)
    (hs : ({ Cursor.initial octave with key := .whole count } : Cursor).soundingName name mark =
      .ok sounding) :
    ∃ song, (ofCommands [.keySignature (.whole count) none, .note name mark .plain none] options :
        Arrangement Number).result = .ok song ∧ song.sheet.notes.map Note.name = [sounding] := by
  have hone : Ticks.toBeats ((48 : Nat) : Rat) = .ok (Number.approx (.finite 1)) :=
    Ticks.toBeats_perBeat
  have hkey : (Cursor.initial octave).step (.keySignature (.whole count) none) =
      .ok ({ Cursor.initial octave with key := .whole count },
        [.keySignature (Number.approx (.finite 0)) (.whole count) none]) :=
    Except.bind_eq_ok_iff.mpr ⟨_, Ticks.toBeats_zero, rfl⟩
  have hnote := Cursor.step_plain_note hs hp (mul_one Ticks.perBeat) Ticks.toBeats_zero
    hone none
  have hwalk : (Cursor.initial octave).walkAll
      [.keySignature (.whole count) none, .note name mark .plain none] =
        (⟨[.keySignature (.approx (.finite 0)) (.whole count) none,
          .note 0 sounding (.approx (.finite 0)) (.approx (.finite 1)) none],
          .ok (({ Cursor.initial octave with key := .whole count } : Cursor).advance 48 (some p))⟩ :
            Walk Number) := by
    rw [Cursor.walkAll_cons_of_step rfl hkey]
    rw [Option.map_none] at hnote
    rw [Cursor.walkAll_cons_of_step rfl hnote]
    rfl
  have hbeats : wholeOrNearest (Ticks.perBeat * Ticks.defaultBeats / Ticks.perBeat) =
      .ok (Number.whole 4) := by decide +kernel
  have hmetadata : metadataAt (({ Cursor.initial octave with key := .whole count } : Cursor).advance
      48 (some p)) [] = .ok ⟨some (.whole count), some (Number.whole 4), none⟩ :=
    Except.bind_eq_ok_iff.mpr ⟨_, hbeats, rfl⟩
  have hsignatures : withFirstSignature ([] : List (Number × Datum)) =
      .ok [(.approx (.finite 0), .whole 4)] := rfl
  have hplain := plainSong_of_walkAll hwalk hmetadata hsignatures
  exact ⟨_, result_of_plainSong ho (congrArg Prod.snd hplain) rfl, rfl⟩

/-- The text of a key signature and a note makes the same song. -/
theorem result_keyed_text {options : ArrangementOptions} {octave : Int}
    (ho : options.defaultOctave.toInt = .ok octave) (count : Int) (letter : Letter)
    (mark : Option Mark) {written : Nat} (hwritten : written < 10) {sounding : String} {p : Int}
    (hp : NoteName.pitch sounding = .ok p)
    (hs : ({ Cursor.initial octave with key := .whole count } : Cursor).soundingName
      (inParts letter .natural (some written)) mark = .ok sounding) :
    ∃ song, (ofText (Word.write [.keySignature count,
        .note ⟨letter, mark, some written, ⟨none, 0, none⟩⟩]) options : Arrangement Number).result =
          .ok song ∧ song.sheet.notes.map Note.name = [sounding] := by
  have hv : ∀ word ∈ [Word.keySignature count,
      .note ⟨letter, mark, some written, ⟨none, 0, none⟩⟩], word.Valid := by
    simpa [Word.Valid, WrittenNote.Valid, WrittenTiming.Valid] using hwritten
  have hc : List.Forall₂ Word.StandsFor
      [.keySignature count, .note ⟨letter, mark, some written, ⟨none, 0, none⟩⟩]
      [.keySignature (.whole count) none,
        .note (inParts letter .natural (some written)) mark .plain none] := by
    rw [NoteName.inParts_written]
    exact .cons (fun _ _ _ => ⟨_, rfl, rfl⟩) (.cons (fun _ _ _ => ⟨_, rfl, rfl⟩) .nil)
  obtain ⟨song, hsong, hnames⟩ := result_keyed_note ho count hp hs
  obtain ⟨song', hsong', rfl⟩ := result_write hv hc hsong
  refine ⟨song', hsong', ?_⟩
  rw [← hnames]
  exact (List.map_map (g := Note.name) (f := Note.withoutLocation)).symm

/-- An accidental that is shown is compiled back. For the count of any key, and a note with or without
sign in any octave, the key asks for the accidental that makes this note of its letter and octave: at
every place where this key is in force, and in a song of this key and note. -/
theorem compiled_as_shown (count : Int) (letter : Letter) (alteration : Alteration) (octave : Nat) :
    ∃ mark : Option Mark,
      (KeySignature.accidentals count).shownAccidental (inParts letter alteration (some octave)) =
        .ok (mark.map Mark.shown) ∧
      (∀ c : Cursor, c.key.toInt = .ok count →
        c.soundingName (inParts letter .natural (some octave)) mark =
            .ok (inParts letter alteration (some octave)) ∧
          ∀ (timing : Timing) (location : Option Location) (d : Cursor) (events : List (Event Number)),
            c.step (.note (inParts letter .natural (some octave)) mark timing location) =
                .ok (d, events) →
              ∃ start duration place, events =
                [.note c.track (inParts letter alteration (some octave)) start duration place]) ∧
      ∀ (options : ArrangementOptions) (defaultOctave : Int),
        options.defaultOctave.toInt = .ok defaultOctave →
          (∃ song : Song Number,
            (ofCommands [.keySignature (.whole count) none,
              .note (inParts letter .natural (some octave)) mark .plain none] options).result =
                .ok song ∧
            song.sheet.notes.map Note.name = [inParts letter alteration (some octave)]) ∧
          (octave < 10 → ∃ song : Song Number,
            (ofText (Word.write [.keySignature count,
              .note ⟨letter, mark, some octave, ⟨none, 0, none⟩⟩]) options).result = .ok song ∧
            song.sheet.notes.map Note.name = [inParts letter alteration (some octave)]) := by
  have hp := NoteName.pitch_inParts letter alteration octave
  refine ⟨(KeySignature.accidentals count).markOf letter alteration,
    KeySignature.shownAccidental_inParts _ letter alteration octave, ?_, ?_⟩
  · intro c hkey
    have hs := Cursor.soundingName_markOf hkey letter alteration octave
    exact ⟨hs, fun _ _ _ _ hstep => Cursor.name_of_step hs hstep⟩
  · intro options defaultOctave ho
    have hs := Cursor.soundingName_markOf
      (c := { Cursor.initial defaultOctave with key := .whole count }) rfl letter alteration octave
    exact ⟨result_keyed_note ho count hp hs,
      fun hlt => result_keyed_text ho count letter _ hlt hp hs⟩

theorem compiled_as_shown_against_key :
    let c : Cursor := { Cursor.initial 4 with key := .whole (-9) }
    ∃ mark : Option Mark,
      (KeySignature.accidentals (-9)).shownAccidental "F#5" = .ok (mark.map Mark.shown) ∧
      (∃ (d : Cursor) (events : List (Event Number)) (start duration : Number)
        (place : Option Location), c.step (.note "F5" mark .plain none) = .ok (d, events) ∧
          events = [.note 0 "F#5" start duration place]) ∧
      ∃ song : Song Number,
        (ofText (Word.write [.keySignature (-9), .note ⟨.F, mark, some 5, ⟨none, 0, none⟩⟩])
          .standard).result = .ok song ∧
        song.sheet.notes.map Note.name = ["F#5"] := by
  intro c
  obtain ⟨mark, hshown, hcursor, hsong⟩ := compiled_as_shown (-9) .F .sharp 5
  obtain ⟨hs, hevents⟩ := hcursor c rfl
  have hstep := Cursor.step_plain_note hs (NoteName.pitch_inParts .F .sharp 5) (mul_one Ticks.perBeat)
    Ticks.toBeats_zero Ticks.toBeats_perBeat none
  obtain ⟨start, duration, place, he⟩ := hevents _ _ _ _ hstep
  obtain ⟨song, htext, hnames⟩ := (hsong .standard 4 rfl).2 (by decide)
  exact ⟨mark, hshown, ⟨_, _, start, duration, place, hstep, he⟩, song, htext, hnames⟩

end Arrangement
end LeadSheet
