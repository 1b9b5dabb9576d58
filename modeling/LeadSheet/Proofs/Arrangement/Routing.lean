import LeadSheet.Proofs.Arrangement.Numbered
import LeadSheet.Proofs.Timeline.Routing

/-!
Songs and tracks. The tracks that a text sets matter for nothing but the tracks of its song: without
them, the sheet with all notes is the same.
-/
namespace LeadSheet
variable {α : Type}

namespace Event

/-- What does not look at tracks finds the same in events in track zero. -/
theorem filterMap_unrouted {β : Type} {f : Event α → Option β} (h : ∀ e, f e.unrouted = f e)
    (events : List (Event α)) : (events.map unrouted).filterMap f = events.filterMap f := by
  rw [List.filterMap_map]
  exact congrArg (events.filterMap ·) (funext h)

end Event

namespace Song

private theorem notesOf_unrouted (events : List (Event α)) :
    notesOf (events.map Event.unrouted) = (notesOf events).map fun note => (0, note.2) := by
  have hnote (e : Event α) : e.unrouted.note? = e.note?.map fun note => (0, note.2) := by
    cases e <;> rfl
  have hnotes : (events.map Event.unrouted).filterMap Event.note? =
      (events.filterMap Event.note?).map fun note => (0, note.2) := by
    rw [List.filterMap_map, List.map_filterMap]
    exact congrArg (events.filterMap ·) (funext hnote)
  rw [notesOf, notesOf, hnotes]
  apply List.ext_getElem?
  intro i
  rw [List.getElem?_mapIdx, List.getElem?_map, List.getElem?_map, List.getElem?_mapIdx,
    Option.map_map, Option.map_map]
  rfl

/-- All that a song keeps outside of its tracks is the same in track zero. -/
theorem sheet_ofEvents_unrouted (events : List (Event α)) :
    (ofEvents (events.map Event.unrouted)).sheet = (ofEvents events).sheet := by
  rw [ofEvents, ofEvents]
  dsimp only
  rw [notesOf_unrouted, List.map_map,
    Event.filterMap_unrouted (f := Event.chord?) fun e => by cases e <;> rfl,
    Event.filterMap_unrouted (f := Event.remark?) fun e => by cases e <;> rfl,
    Event.filterMap_unrouted (f := Event.timeSignature?) fun e => by cases e <;> rfl,
    Event.filterMap_unrouted (f := Event.keyChange?) fun e => by cases e <;> rfl]
  rfl

end Song

namespace Arrangement
open Command (withoutTracksIn leavesIn isField)

/-- Fields are no tracks. -/
theorem fieldsOf_withoutTracks (commands : List Command) :
    fieldsOf (withoutTracksIn commands) = fieldsOf commands := by
  have hfields : (withoutTracksIn commands).filter isField = commands.filter isField := by
    induction commands with
    | nil => rfl
    | cons command commands ih =>
      rw [withoutTracksIn, List.filter_append, ih]
      cases command <;> rfl
  rw [← fieldsOf_filter_isField, hfields, fieldsOf_filter_isField]

variable [Timebase α]

/-- A song of commands without their tracks has the same sheet. -/
theorem plainSong_withoutTracks {commands : List Command}
    (h : ∀ leaf ∈ leavesIn commands, leaf.Routes) (octave : Int) :
    (plainSong (withoutTracksIn commands) octave : List (Event α) × Except Failure (Song α)).2.map
        Song.sheet =
      (plainSong commands octave : List (Event α) × Except Failure (Song α)).2.map Song.sheet := by
  have hwalk : ((Cursor.initial octave).walkAll (withoutTracksIn commands) : Walk α) = _ :=
    Cursor.walkAll_withoutTracks (Cursor.initial octave) h
  rw [plainSong, plainSong, hwalk, fieldsOf_withoutTracks]
  generalize ((Cursor.initial octave).walkAll commands : Walk α) = walk
  obtain ⟨events, outcome⟩ := walk
  cases outcome with
  | error e => rfl
  | ok cursor =>
    have hsheet := Song.sheet_ofEvents_unrouted events
    change Except.map Song.sheet (metadataAt cursor (fieldsOf commands) >>= _) =
      Except.map Song.sheet (metadataAt cursor (fieldsOf commands) >>= _)
    rw [Except.map_bind, Except.map_bind]
    refine bind_congr fun metadata => ?_
    dsimp only [Walk.unrouted]
    rw [Except.map_bind, Except.map_bind, hsheet]
    rfl

private theorem result_ofCommands_of_off {options : ArrangementOptions}
    (h : options.accompaniment = .off)
    (commands : List Command) :
    (ofCommands commands options : Arrangement α).result =
      options.defaultOctave.toInt >>= fun octave => (plainSong commands octave).2 := by
  have hkept (song : Song α) : (accompanied song options).2 = .ok song := by
    rw [accompanied, h]
    split
    · rfl
    · rfl
  rw [ofCommands]
  cases options.defaultOctave.toInt with
  | error e => rfl
  | ok octave =>
    change _ = (plainSong commands octave : List (Event α) × Except Failure (Song α)).2
    dsimp only
    cases (plainSong commands octave : List (Event α) × Except Failure (Song α)).2 with
    | error e => rfl
    | ok song => exact hkept song

/-- Tracks only route. A text and the same text without its tracks, at any depth, have songs with
the same sheet, or fail alike. -/
theorem ofText_routing {text : String} {commands : List Command} (h : parse text = .ok commands)
    {options : ArrangementOptions} (hoff : options.accompaniment = .off) :
    (ofCommands (withoutTracksIn commands) options : Arrangement α).result.map Song.sheet =
      (ofText text options : Arrangement α).result.map Song.sheet := by
  have hroutes : ∀ leaf ∈ leavesIn commands, leaf.Routes := fun leaf hl =>
    (Command.written_of_parse h leaf hl).routes
  have htext : (ofText text options : Arrangement α) = ofCommands commands options := by
    rw [ofText, h]
  rw [htext, result_ofCommands_of_off hoff, result_ofCommands_of_off hoff]
  cases options.defaultOctave.toInt with
  | error e => rfl
  | ok octave => exact plainSong_withoutTracks hroutes octave

theorem ofText_routing_voices :
    ∃ commands, parse "t1 c4 \x7bt2 /f d4\x7d $Am e4" = .ok commands ∧
      (ofCommands (withoutTracksIn commands) ⟨.whole 4, .off, .none⟩ :
          Arrangement Number).result.map Song.sheet =
        (ofText "t1 c4 \x7bt2 /f d4\x7d $Am e4" ⟨.whole 4, .off, .none⟩ :
          Arrangement Number).result.map Song.sheet := by
  obtain ⟨commands, h⟩ : ∃ commands, parse "t1 c4 \x7bt2 /f d4\x7d $Am e4" = .ok commands :=
    Except.exists_eq_ok (by decide +kernel)
  exact ⟨commands, h, ofText_routing h rfl⟩

end Arrangement
end LeadSheet
